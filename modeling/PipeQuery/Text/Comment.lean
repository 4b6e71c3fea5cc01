/-!
# `PipeQuery.Text.Comment`: where comments end

A line comment runs through its line feed. Block comments nest: inside one, `/*` opens another
and `*/` closes the innermost, both read greedily from left to right, so `/*/` is an opening and
a slash.

The end of a block comment is found with leaps to the next slash or asterisk, as nothing else can
be part of a mark. `blockCommentEnd?` is the same without leaps, one character or mark at a time,
and `blockCommentScan?_eq` says so.
-/

set_option autoImplicit false

namespace PipeQuery.Text

/-- The number of characters of a line comment, its line feed included. -/
def lineCommentLength : List Char → Nat
  | [] => 0
  | c :: rest => if c = '\n' then 1 else lineCommentLength rest + 1

/-- What stands at the start of a text inside a block comment. -/
inductive CommentPart where
  /-- The mark that opens a comment. -/
  | opening
  /-- The mark that closes one. -/
  | closing
  /-- Characters that are no mark. -/
  | plain (length : Nat)
  /-- No slash and no asterisk is left. -/
  | endless
deriving DecidableEq, Repr

/-- Marks are made of slashes and asterisks. -/
def isMarkChar (c : Char) : Bool :=
  c = '/' || c = '*'

/-- A mark, or else all up to the next slash or asterisk; a single one of these if it stands
here. -/
def commentPart : List Char → CommentPart
  | '/' :: '*' :: _ => .opening
  | '*' :: '/' :: _ => .closing
  | cs =>
    match cs.findIdx? isMarkChar with
    | none => .endless
    | some 0 => .plain 1
    | some (n + 1) => .plain (n + 1)

theorem length_pos_of_commentPart {cs : List Char} (h : commentPart cs ≠ .endless) :
    0 < cs.length := by
  cases cs with
  | nil => exact absurd rfl h
  | cons c rest => exact Nat.succ_pos _

theorem pos_of_commentPart_plain {cs : List Char} {n : Nat} (h : commentPart cs = .plain n) :
    0 < n := by
  unfold commentPart at h
  split at h
  · cases h
  · cases h
  · split at h <;> cases h <;> exact Nat.succ_pos _

/-- The number of characters up to the end of the outermost comment, when `depth` comments are
open; none if the text ends first. -/
def blockCommentScan? (depth : Nat) (cs : List Char) : Option Nat :=
  match h : commentPart cs with
  | .opening => (blockCommentScan? (depth + 1) (cs.drop 2)).map (· + 2)
  | .closing =>
    if depth - 1 = 0 then some 2 else (blockCommentScan? (depth - 1) (cs.drop 2)).map (· + 2)
  | .plain n => (blockCommentScan? depth (cs.drop n)).map (· + n)
  | .endless => none
termination_by cs.length
decreasing_by
  all_goals
    have : 0 < cs.length := length_pos_of_commentPart (by rw [h]; nofun)
    rw [List.length_drop]
  · omega
  · omega
  · have := pos_of_commentPart_plain h
    omega

/-- The number of characters of the block comment at the start of the text, if it ends. -/
def blockCommentLength? (cs : List Char) : Option Nat :=
  blockCommentScan? 0 cs

/-! ### Without leaps -/

/-- `blockCommentScan?`, one character or mark at a time. -/
def blockCommentEnd? : Nat → List Char → Option Nat
  | _, [] => none
  | depth, '/' :: '*' :: rest => (blockCommentEnd? (depth + 1) rest).map (· + 2)
  | depth, '*' :: '/' :: rest =>
    if depth ≤ 1 then some 2 else (blockCommentEnd? (depth - 1) rest).map (· + 2)
  | depth, _ :: rest => (blockCommentEnd? depth rest).map (· + 1)

/-- What is neither a slash nor an asterisk begins no mark. -/
theorem blockCommentEnd?_plain (depth : Nat) {c : Char} (h : isMarkChar c = false)
    (rest : List Char) :
    blockCommentEnd? depth (c :: rest) = (blockCommentEnd? depth rest).map (· + 1) := by
  rw [blockCommentEnd?]
  all_goals
    rintro _ rfl
    cases h

/-- A leap over characters of which none begins a mark. -/
theorem blockCommentEnd?_leap (depth : Nat) {cs : List Char}
    (h : ∀ c ∈ cs, isMarkChar c = false) (rest : List Char) :
    blockCommentEnd? depth (cs ++ rest) = (blockCommentEnd? depth rest).map (· + cs.length) := by
  induction cs with
  | nil => simp
  | cons c cs ih =>
      rw [List.cons_append, blockCommentEnd?_plain depth (h c List.mem_cons_self),
        ih fun d hd => h d (List.mem_cons_of_mem _ hd), Option.map_map, List.length_cons]
      rfl

/-- Characters in front of the first slash or asterisk are no part of a mark, nor is one of these
that does not begin a mark itself. -/
theorem blockCommentEnd?_of_plain (depth : Nat) {cs : List Char} {n : Nat}
    (h : commentPart cs = .plain n) :
    blockCommentEnd? depth cs = (blockCommentEnd? depth (cs.drop n)).map (· + n) := by
  unfold commentPart at h
  split at h
  · cases h
  · cases h
  · rename_i hopening hclosing
    split at h
    · cases h
    · rename_i hfound
      obtain rfl : 1 = n := CommentPart.plain.inj h
      cases cs with
      | nil => cases hfound
      | cons c rest =>
          rw [blockCommentEnd?]
          · rfl
          · exact fun rest hc hrest => hopening rest (by rw [hc, hrest])
          · exact fun rest hc hrest => hclosing rest (by rw [hc, hrest])
    · -- All characters up to the next mark are passed by at once.
      rename_i m hfound
      obtain rfl : m + 1 = n := CommentPart.plain.inj h
      obtain ⟨hlength, -, hbefore⟩ := List.findIdx?_eq_some_iff_getElem.mp hfound
      have hplain : ∀ c ∈ cs.take (m + 1), isMarkChar c = false := by
        intro c hc
        obtain ⟨j, hj, rfl⟩ := List.mem_take_iff_getElem.mp hc
        exact Bool.eq_false_iff.mpr (hbefore j (by omega))
      have hleap := blockCommentEnd?_leap depth hplain (cs.drop (m + 1))
      rwa [List.take_append_drop, List.length_take_of_le (Nat.le_of_lt hlength)] at hleap

theorem blockCommentEnd?_of_endless (depth : Nat) {cs : List Char}
    (h : commentPart cs = .endless) : blockCommentEnd? depth cs = none := by
  unfold commentPart at h
  split at h
  · cases h
  · cases h
  · split at h
    · rename_i hnone
      have hleap := blockCommentEnd?_leap depth (List.findIdx?_eq_none_iff.mp hnone) []
      rwa [List.append_nil] at hleap
    · cases h
    · cases h

theorem of_commentPart_opening {cs : List Char} (h : commentPart cs = .opening) :
    ∃ rest, cs = '/' :: '*' :: rest := by
  unfold commentPart at h
  split at h
  · exact ⟨_, rfl⟩
  · cases h
  · split at h <;> cases h

theorem of_commentPart_closing {cs : List Char} (h : commentPart cs = .closing) :
    ∃ rest, cs = '*' :: '/' :: rest := by
  unfold commentPart at h
  split at h
  · cases h
  · exact ⟨_, rfl⟩
  · split at h <;> cases h

/-- One round of the scan, told by the part that stands here. -/
theorem blockCommentScan?_round (depth : Nat) (cs : List Char) :
    blockCommentScan? depth cs =
      match commentPart cs with
      | .opening => (blockCommentScan? (depth + 1) (cs.drop 2)).map (· + 2)
      | .closing =>
        if depth - 1 = 0 then some 2 else (blockCommentScan? (depth - 1) (cs.drop 2)).map (· + 2)
      | .plain n => (blockCommentScan? depth (cs.drop n)).map (· + n)
      | .endless => none := by
  rw [blockCommentScan?]
  split <;> simp only [*]

/-- No leap passes over a mark. The induction is on the rounds of the scan. -/
theorem blockCommentScan?_eq (depth : Nat) (cs : List Char) :
    blockCommentScan? depth cs = blockCommentEnd? depth cs := by
  induction depth, cs using blockCommentScan?.induct with
  | case1 depth cs h ih =>
      rw [blockCommentScan?_round, h]
      obtain ⟨rest, rfl⟩ := of_commentPart_opening h
      exact congrArg (Option.map (· + 2)) ih
  | case2 depth cs h hdepth =>
      rw [blockCommentScan?_round, h]
      obtain ⟨rest, rfl⟩ := of_commentPart_closing h
      rw [blockCommentEnd?]
      simp only [if_pos hdepth]
      rw [if_pos (by omega)]
  | case3 depth cs h hdepth ih =>
      rw [blockCommentScan?_round, h]
      obtain ⟨rest, rfl⟩ := of_commentPart_closing h
      rw [blockCommentEnd?, if_neg (by omega : ¬ depth ≤ 1)]
      simp only [if_neg hdepth]
      exact congrArg (Option.map (· + 2)) ih
  | case4 depth cs n h ih =>
      rw [blockCommentScan?_round, h, blockCommentEnd?_of_plain depth h, ← ih]
  | case5 depth cs h =>
      rw [blockCommentScan?_round, h, blockCommentEnd?_of_endless depth h]

theorem blockCommentLength?_eq (cs : List Char) :
    blockCommentLength? cs = blockCommentEnd? 0 cs :=
  blockCommentScan?_eq 0 cs

end PipeQuery.Text
