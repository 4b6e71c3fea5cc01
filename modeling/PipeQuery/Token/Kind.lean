import PipeQuery.Mode
import PipeQuery.Text.Ascii

/-!
# `PipeQuery.Token.Kind`: what a token is

Command words and the keywords of expressions are kinds of their own, so that the parser decides
by kind and never by text. Both tables are searched without regard to the case of ASCII letters.
-/

set_option autoImplicit false

namespace PipeQuery

/-- The words that begin a command. -/
inductive Verb where
  | dissect
  | drop
  | enrich
  | eval
  | explain
  | «from»
  | grok
  | keep
  | limit
  | mvExpand
  | rename
  | row
  | «show»
  | sort
  | stats
  | «where»
  | inlineStats
  | lookup
  | «match»
  | metrics
deriving DecidableEq, Repr, Inhabited

namespace Verb

/-- Every verb once. -/
def all : List Verb :=
  [.dissect, .drop, .enrich, .eval, .explain, .«from», .grok, .keep, .limit, .mvExpand, .rename,
    .row, .«show», .sort, .stats, .«where», .inlineStats, .lookup, .«match», .metrics]

/-- The verb as it is written in a query, in upper case. -/
def text : Verb → String
  | .dissect => "DISSECT"
  | .drop => "DROP"
  | .enrich => "ENRICH"
  | .eval => "EVAL"
  | .explain => "EXPLAIN"
  | .«from» => "FROM"
  | .grok => "GROK"
  | .keep => "KEEP"
  | .limit => "LIMIT"
  | .mvExpand => "MV_EXPAND"
  | .rename => "RENAME"
  | .row => "ROW"
  | .«show» => "SHOW"
  | .sort => "SORT"
  | .stats => "STATS"
  | .«where» => "WHERE"
  | .inlineStats => "INLINESTATS"
  | .lookup => "LOOKUP"
  | .«match» => "MATCH"
  | .metrics => "METRICS"

/-- The verb is a preview, known only when development features are on. -/
def isPreview : Verb → Bool
  | .inlineStats | .lookup | .«match» | .metrics => true
  | _ => false

/-- The mode in which the rest of the command is read. -/
def mode : Verb → Mode
  | .«from» => .sources
  | .keep | .drop => .project
  | .rename => .rename
  | .enrich => .enrich
  | .mvExpand => .mvExpand
  | .«show» => .info
  | .explain => .explain
  | .lookup => .lookup
  | .metrics => .metrics
  | _ => .expression

/-- The verb that a word spells, previews included. -/
def ofWord? (word : String) : Option Verb :=
  let spelled := Text.upper word
  all.find? fun verb => verb.text = spelled

end Verb

/-- The words with a meaning inside a command. -/
inductive Keyword where
  | «by»
  | and
  | asc
  | desc
  | «false»
  | first
  | «in»
  | is
  | last
  | like
  | not
  | null
  | nulls
  | or
  | rlike
  | «true»
  | metadata
  | as
  | on
  | «with»
  | info
deriving DecidableEq, Repr, Inhabited

namespace Keyword

/-- The keyword as it is written in a query, in upper case. -/
def text : Keyword → String
  | .«by» => "BY"
  | .and => "AND"
  | .asc => "ASC"
  | .desc => "DESC"
  | .«false» => "FALSE"
  | .first => "FIRST"
  | .«in» => "IN"
  | .is => "IS"
  | .last => "LAST"
  | .like => "LIKE"
  | .not => "NOT"
  | .null => "NULL"
  | .nulls => "NULLS"
  | .or => "OR"
  | .rlike => "RLIKE"
  | .«true» => "TRUE"
  | .metadata => "METADATA"
  | .as => "AS"
  | .on => "ON"
  | .«with» => "WITH"
  | .info => "INFO"

/-- The keywords of expressions. The others are keywords in the modes of single commands only. -/
def inExpressions : List Keyword :=
  [.and, .asc, .«by», .desc, .«false», .first, .«in», .is, .last, .like, .not, .null, .nulls, .or,
    .rlike, .«true»]

/-- The expression keyword that a word spells. -/
def ofWord? (word : String) : Option Keyword :=
  let spelled := Text.upper word
  inExpressions.find? fun keyword => keyword.text = spelled

end Keyword

namespace Token

/-- What a token is. The verb `MATCH` stands for the command and for the operator alike. -/
inductive Kind where
  | command (verb : Verb)
  | unknownCommand
  | lineComment
  | blockComment
  | whitespace
  | pipe
  | comma
  | dot
  | leftParen
  | rightParen
  | assign
  | eq
  | ciEq
  | ne
  | lt
  | le
  | gt
  | ge
  | cast
  | plus
  | minus
  | asterisk
  | slash
  | percent
  | anonymousParam
  | colon
  | openBracket
  | closeBracket
  | keyword (word : Keyword)
  | integer
  | decimal
  | quotedString
  | identifier
  | quotedIdentifier
  | param
  | source
  | pattern
  | policy
  | setting
  | error
  | eof
deriving DecidableEq, Repr, Inhabited

namespace Kind

/-- White space and comments, which the parser does not see. -/
def isTrivia : Kind → Bool
  | .whitespace | .lineComment | .blockComment => true
  | _ => false

/-- The kind in the words of a reader of diagnostics. -/
def describe : Kind → String
  | .command verb => verb.text
  | .unknownCommand => "command"
  | .lineComment | .blockComment => "comment"
  | .whitespace => "whitespace"
  | .pipe => "'|'"
  | .comma => "','"
  | .dot => "'.'"
  | .leftParen => "'('"
  | .rightParen => "')'"
  | .assign => "'='"
  | .eq => "'=='"
  | .ciEq => "'=~'"
  | .ne => "'!='"
  | .lt => "'<'"
  | .le => "'<='"
  | .gt => "'>'"
  | .ge => "'>='"
  | .cast => "'::'"
  | .plus => "'+'"
  | .minus => "'-'"
  | .asterisk => "'*'"
  | .slash => "'/'"
  | .percent => "'%'"
  | .anonymousParam => "'?'"
  | .colon => "':'"
  | .openBracket => "'['"
  | .closeBracket => "']'"
  | .keyword word => word.text
  | .integer => "integer"
  | .decimal => "decimal"
  | .quotedString => "string"
  | .identifier | .quotedIdentifier => "identifier"
  | .param => "parameter"
  | .source => "source name"
  | .pattern => "field pattern"
  | .policy => "policy name"
  | .setting => "setting"
  | .error => "invalid input"
  | .eof => "end of input"

end Kind

end Token

end PipeQuery
