import PipeQuery.Token.Basic

/-!
# `PipeQuery.Token.Label`: the names of kinds, modes and channels

Tools tell tokens apart by the names of their kinds, in listings and in JSON alike. Unlike
`Token.Kind.describe`, which speaks to a reader of diagnostics, no two kinds share a name.
-/

set_option autoImplicit false

namespace PipeQuery

/-- The name of a verb. A preview is marked as one. -/
def Verb.label : Verb → String
  | .dissect => "Dissect"
  | .drop => "Drop"
  | .enrich => "Enrich"
  | .eval => "Eval"
  | .explain => "Explain"
  | .«from» => "From"
  | .grok => "Grok"
  | .keep => "Keep"
  | .limit => "Limit"
  | .mvExpand => "MvExpand"
  | .rename => "Rename"
  | .row => "Row"
  | .«show» => "Show"
  | .sort => "Sort"
  | .stats => "Stats"
  | .«where» => "Where"
  | .inlineStats => "DevInlineStats"
  | .lookup => "DevLookup"
  | .«match» => "DevMatch"
  | .metrics => "DevMetrics"

/-- The name of a keyword. -/
def Keyword.label : Keyword → String
  | .«by» => "By"
  | .and => "And"
  | .asc => "Asc"
  | .desc => "Desc"
  | .«false» => "False"
  | .first => "First"
  | .«in» => "In"
  | .is => "Is"
  | .last => "Last"
  | .like => "Like"
  | .not => "Not"
  | .null => "Null"
  | .nulls => "Nulls"
  | .or => "Or"
  | .rlike => "Rlike"
  | .«true» => "True"
  | .metadata => "Metadata"
  | .as => "As"
  | .on => "On"
  | .«with» => "With"
  | .info => "Info"

/-- The name of a kind. -/
def Token.Kind.label : Token.Kind → String
  | .command verb => verb.label
  | .unknownCommand => "UnknownCmd"
  | .lineComment => "LineComment"
  | .blockComment => "MultilineComment"
  | .whitespace => "Whitespace"
  | .pipe => "Pipe"
  | .comma => "Comma"
  | .dot => "Dot"
  | .leftParen => "LeftParen"
  | .rightParen => "RightParen"
  | .assign => "Assign"
  | .eq => "Eq"
  | .ciEq => "CiEq"
  | .ne => "Neq"
  | .lt => "Lt"
  | .le => "Lte"
  | .gt => "Gt"
  | .ge => "Gte"
  | .cast => "CastOp"
  | .plus => "Plus"
  | .minus => "Minus"
  | .asterisk => "Asterisk"
  | .slash => "Slash"
  | .percent => "Percent"
  | .anonymousParam => "Param"
  | .colon => "Colon"
  | .openBracket => "OpeningBracket"
  | .closeBracket => "ClosingBracket"
  | .keyword word => word.label
  | .integer => "IntegerLiteral"
  | .decimal => "DecimalLiteral"
  | .quotedString => "QuotedString"
  | .identifier => "UnquotedIdentifier"
  | .quotedIdentifier => "QuotedIdentifier"
  | .param => "NamedOrPositionalParam"
  | .source => "UnquotedSource"
  | .pattern => "IdPattern"
  | .policy => "EnrichPolicyName"
  | .setting => "Setting"
  | .error => "Error"
  | .eof => "Eof"

/-- The name of a mode. -/
def Mode.label : Mode → String
  | .default => "Default"
  | .expression => "Expression"
  | .explain => "Explain"
  | .sources => "From"
  | .project => "Project"
  | .rename => "Rename"
  | .enrich => "Enrich"
  | .enrichField => "EnrichField"
  | .mvExpand => "MvExpand"
  | .info => "Show"
  | .setting => "Setting"
  | .lookup => "Lookup"
  | .lookupField => "LookupField"
  | .metrics => "Metrics"
  | .closingMetrics => "ClosingMetrics"

/-- The name of a channel. -/
def Channel.label : Channel → String
  | .default => "default"
  | .hidden => "hidden"

end PipeQuery
