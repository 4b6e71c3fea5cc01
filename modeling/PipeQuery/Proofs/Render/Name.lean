import PipeQuery.Proofs.Parser.Name
import PipeQuery.Proofs.Render.Core
import PipeQuery.Proofs.Text.Encoding
import PipeQuery.Proofs.Token.Lexed
import PipeQuery.Proofs.Token.Spelling

/-!
# `PipeQuery.Proofs.Render.Name`: names are read back

A name is rendered bare if it can be and between backquotes otherwise, a parameter with its
question mark, and dotted names with their dots. The lemmas `….prints` say of each that its text is
read, in every mode that has such names, as lexemes that write a name with the same core. Names are
rendered from what they stand for; the text of a parameter must have been one.
-/

set_option autoImplicit false

namespace PipeQuery

open PipeQuery.Parser PipeQuery.Token
open Token.Shape (startsWith IsWord)

/-- The lexemes write something with the same core as `a`. -/
def Rewrites {α : Type} (R : List Lexeme → α → Prop) (core : α → α) (a : α) (w : List Lexeme) :
    Prop :=
  ∃ a', R w a' ∧ core a' = core a

variable {preview : Bool} {mode : Mode}

/-! ### Items with separators between them -/

/-- A list of texts with separators begins with the first text. -/
theorem Text.joined_cons (separator piece : String) (pieces : List String) :
    ∃ behind, (joined separator (piece :: pieces)).toList = piece.toList ++ behind := by
  cases pieces with
  | nil => exact ⟨[], (List.append_nil _).symm⟩
  | cons next pieces =>
      refine ⟨separator.toList ++ (joined separator (next :: pieces)).toList, ?_⟩
      rw [joined, String.toList_append, String.toList_append, List.append_assoc]
      exact List.cons_ne_nil _ _

/-- Items are read if each is, if no separator carries on an item and no item a separator. -/
theorem Token.Prints.separated {α : Type} {kind : Kind} {separator : String}
    {render : α → String} {core : α → α} {R : List Lexeme → α → Prop} {more more' : Char → Bool}
    (hseparator : Prints preview mode id separator.toList more' (IsKind kind))
    (hends : ∀ rest, startsWith more (separator.toList ++ rest) = false)
    {items : List α} (hne : items ≠ [])
    (hitem : ∀ a ∈ items, Prints preview mode id (render a).toList more (Rewrites R core a))
    (hstart : ∀ a ∈ items, ∀ rest, startsWith more' ((render a).toList ++ rest) = false) :
    Prints preview mode id (Text.joined separator (items.map render)).toList more
      (Rewrites (SepBy kind R) (List.map core) items) := by
  induction items with
  | nil => exact absurd rfl hne
  | cons a items ih =>
      cases items with
      | nil =>
          refine (hitem a (by simp)).imp ?_
          rintro w ⟨a', hR, hcore⟩
          exact ⟨[a'], .one hR, by rw [List.map_singleton, List.map_singleton, hcore]⟩
      | cons b items =>
          have hrest := ih (List.cons_ne_nil _ _) (fun a ha => hitem a (List.mem_cons_of_mem _ ha))
            fun a ha => hstart a (List.mem_cons_of_mem _ ha)
          obtain ⟨behind, hbehind⟩ :=
            Text.joined_cons separator (render b) (items.map render)
          -- Behind the separator stands the next item, at which the separator's own text ends.
          have hcarry : ∀ rest, startsWith more'
              ((Text.joined separator ((b :: items).map render)).toList ++ rest) = false := by
            intro rest
            rw [List.map_cons, hbehind, List.append_assoc]
            exact hstart b (by simp) _
          have htext : (Text.joined separator ((a :: b :: items).map render)).toList =
              (render a).toList ++ (separator.toList ++
                (Text.joined separator ((b :: items).map render)).toList) := by
            rw [List.map_cons, List.map_cons, Text.joined, String.toList_append,
              String.toList_append, List.append_assoc]
            exact List.cons_ne_nil _ _
          rw [htext]
          refine ((hitem a (by simp)).append (hseparator.append hrest (fun rest _ => hcarry rest)
            fun _ hm => hm) (fun rest _ => ?_) fun _ hm => hm).imp ?_
          · rw [List.append_assoc]
            exact hends _
          · -- The first item, the separator and the rest are found again in this order.
            rintro w ⟨w₁, w₂, rfl, ⟨a', hR, hcore⟩, w₃, w₄, rfl, ⟨l, rfl, hl⟩, as', hall, hcores⟩
            refine ⟨a' :: as', .more hR hl hall, ?_⟩
            rw [List.map_cons, hcore, hcores]
            rfl

/-- What is read in the mode that a bracket enters is read between brackets: behind the closing one
the frame of the opening one is left. -/
theorem Token.Prints.bracketed {inner : Mode} {cs : List Char} {more : Char → Bool}
    {R : List Lexeme → Prop} (h : Prints preview inner id cs more R)
    (hopening : single? mode '[' = some .openBracket) (hinner : mode.inBrackets = inner)
    (hclosing : single? inner ']' = some .closeBracket) (hends : more ']' = false) :
    Prints preview mode id ('[' :: (cs ++ [']'])) (fun _ => false)
      (Followed (IsKind .openBracket) (Followed R (IsKind .closeBracket))) := by
  have hopen : Prints preview mode (·.pushBracket inner) ['['] (fun _ => false)
      (IsKind .openBracket) := by
    refine (Prints.sign (.single hopening) (fun _ => rfl) fun m hm => ?_).imp
      fun _ => IsToken.isKind
    show m.pushBracket m.current.inBrackets = _
    rw [hm, hinner]
  have hclose : Prints preview inner (·.closeBracket) [']'] (fun _ => false)
      (IsKind .closeBracket) :=
    (Prints.sign (.single hclosing) (fun _ => rfl) fun _ _ => rfl).imp fun _ => IsToken.isKind
  refine (hopen.append (h.append hclose (fun _ _ => hends) fun _ h => h)
    (fun rest _ => by cases (cs ++ [']']) ++ rest <;> rfl) fun _ _ => rfl).congr fun m _ => ?_
  simp [ModeStack.closeBracket, ModeStack.hasBracket, ModeStack.pushBracket]

/-- A word that its scanner takes as a whole is a token. -/
theorem Token.forms_word {word : String} (hword : scan mode word.toList = word.toList.length)
    (hne : word.toList ≠ []) : Forms preview mode (wordKind preview mode word) word.toList := by
  have hpos : scan mode word.toList ≠ 0 := by
    rw [hword]
    exact fun hzero => hne (List.length_eq_zero_iff.mp hzero)
  have htake := (scan_scans mode).isWord_take hpos
  rw [hword, List.take_length] at htake
  have hforms : Forms preview mode (wordKind preview mode (String.ofList word.toList))
      word.toList := .word htake
  rwa [String.ofList_toList] at hforms

/-- What is known of the lexemes of each item, if it is kept by items and separators. -/
theorem Parser.SepBy.lexed {α : Type} {kind : Kind} {R : List Lexeme → α → Prop}
    {P : ModeStack → Prop} (hkind : kind ≠ .error) (hseparator : ∀ m, P m → P (m.behind kind))
    (hitem : ∀ {m w w' a}, P m → R w a → Lexed preview m (w ++ w') →
      ∃ m', P m' ∧ Lexed preview m' w')
    {w : List Lexeme} {as : List α} (h : SepBy kind R w as) {m : ModeStack} (hm : P m)
    (hw : Lexed preview m w) :
    ∀ a ∈ as, ∃ m' w', P m' ∧ R w' a ∧ Lexed preview m' w' := by
  induction h generalizing m with
  | one h =>
      intro a ha
      obtain rfl := List.mem_singleton.mp ha
      exact ⟨m, _, hm, h, hw⟩
  | @more w w' a as l h hl _ ih =>
      intro b hb
      rcases List.mem_cons.mp hb with rfl | hb
      · exact ⟨m, w, hm, h, hw.left⟩
      · obtain ⟨m', hm', hw'⟩ := hitem hm h hw
        obtain ⟨-, hrest⟩ := hw'.head_of_kind hl hkind
        exact ih (hseparator m' hm') hrest b hb

/-- The lexemes of each item of a list are read from some modes. -/
theorem Parser.SepBy.lexed_items {α : Type} {R : List Lexeme → α → Prop} {w : List Lexeme}
    {as : List α} {kind : Kind} (hkind : kind ≠ .error) (h : SepBy kind R w as) {m : ModeStack}
    (hw : Lexed preview m w) : ∀ a ∈ as, ∃ m' w', R w' a ∧ Lexed preview m' w' := by
  intro a ha
  obtain ⟨m', w', -, hR, hw'⟩ := h.lexed (P := fun _ => True) hkind (fun _ _ => trivial)
    (fun _ _ hw => hw.right.imp fun _ h => ⟨trivial, h⟩) trivial hw a ha
  exact ⟨m', w', hR, hw'⟩

/-! ### Names -/

/-- Names, parameters and the dots between them are read in the mode, and nothing leaves it. -/
structure Mode.ReadsNames (preview : Bool) (mode : Mode) : Prop where
  scan_eq : scan mode = Shape.identifier
  carries_eq : carries mode = fun c => Shape.isNameChar c || Shape.isSigil c
  hasQuotedNames : hasQuotedNames mode = true
  hasParameters : hasParameters mode = true
  isSteady : mode.isSteady = true
  wordKind_eq : ∀ name, Identifier.isReserved name = false →
    wordKind preview mode name = .identifier
  dot : Forms preview mode .dot ['.']

/-- Names are read in expressions. -/
theorem readsNames_expression (preview : Bool) : Mode.ReadsNames preview .expression where
  scan_eq := rfl
  carries_eq := rfl
  hasQuotedNames := rfl
  hasParameters := rfl
  isSteady := rfl
  wordKind_eq name h := by
    obtain ⟨hkeyword, hmatch⟩ := Bool.or_eq_false_iff.mp h
    rw [Option.isSome_eq_false_iff, Option.isNone_iff_eq_none] at hkeyword
    simp [wordKind, hkeyword, hmatch]
  dot := .operator rfl

/-- They are read in `MV_EXPAND`. -/
theorem readsNames_mvExpand (preview : Bool) : Mode.ReadsNames preview .mvExpand where
  scan_eq := rfl
  carries_eq := rfl
  hasQuotedNames := rfl
  hasParameters := rfl
  isSteady := rfl
  wordKind_eq _ _ := rfl
  dot := .single rfl

/-- In a steady mode only brackets and pipes change the modes. -/
theorem Mode.behind_eq (h : mode.isSteady = true) {kind : Kind} (hkind : kind.shifts = false)
    (m : ModeStack) (hm : m.current = mode) : m.behind kind = id m :=
  ModeStack.behind_of_isSteady (hm ▸ h) hkind

/-- The characters that carry a name on, quoted or bare, or a parameter. -/
def carriesName (c : Char) : Bool :=
  Shape.isNameChar c || Shape.isSigil c || c = '\x60'

/-- A sigil and some characters of names are one word: of the sigils among them, all but the first
are underscores. -/
theorem sigilWord_cons {c : Char} {cs : List Char} (hc : Shape.isSigil c = true) (hne : cs ≠ [])
    (hall : ∀ d ∈ cs, Shape.isNameChar d = true) :
    Shape.sigilWord Shape.isNameChar (c :: cs) = (c :: cs).length := by
  obtain ⟨sigils, tail, rfl, hsigils, htail⟩ : ∃ sigils tail, cs = sigils ++ tail ∧
      (∀ d ∈ sigils, Shape.isSigil d = true) ∧ startsWith Shape.isSigil tail = false :=
    ⟨_, _, List.takeWhile_append_dropWhile.symm, fun d hd => List.mem_takeWhile_imp hd,
      Shape.startsWith_dropWhile _ _⟩
  -- Signs alone make a word where the last is an underscore, and `@` is no character of names.
  have hcond : (((c :: sigils).getLast? = some '_' && 2 ≤ (c :: sigils).length) ||
      (c :: sigils ≠ [] && startsWith Shape.isNameChar tail)) = true := by
    cases tail with
    | cons d tail => simp [hall d (by simp)]
    | nil =>
        rw [List.append_nil] at hne hall
        have hlast : (c :: sigils).getLast? = some (sigils.getLast hne) := by
          rw [List.getLast?_cons, List.getLast?_eq_some_getLast hne, Option.getD_some]
        have hmem := List.getLast_mem hne
        have hunderscore : sigils.getLast hne = '_' := by
          rcases Bool.or_eq_true_iff.mp (hsigils _ hmem) with h | h
          · exact of_decide_eq_true h
          · have hname := hall _ hmem
            rw [of_decide_eq_true h] at hname
            exact absurd hname (by decide)
        have hpos := List.length_pos_iff.mpr hne
        simp [hlast, hunderscore, Nat.succ_le_of_lt hpos]
  have hrun : Shape.run Shape.isNameChar tail = tail.length := by
    have := Shape.run_append (fun d hd => hall d (List.mem_append_right _ hd))
      (Shape.startsWith_nil Shape.isNameChar)
    rwa [List.append_nil] at this
  have hword := Shape.sigilWord_append Shape.isNameChar
    (List.forall_mem_cons.mpr ⟨hc, hsigils⟩) htail
  rw [if_pos hcond, hrun] at hword
  rw [← List.cons_append, hword, List.length_append]

/-- A name of bare shape is one word. -/
theorem identifier_of_hasBareShape {name : String} (h : Identifier.hasBareShape name = true) :
    IsWord Shape.identifier (fun c => Shape.isNameChar c || Shape.isSigil c) name.toList := by
  have hlength : Shape.identifier name.toList = name.toList.length ∧ name.toList ≠ [] := by
    unfold Identifier.hasBareShape at h
    cases hname : name.toList with
    | nil => rw [hname] at h; cases h
    | cons c cs =>
        rw [hname] at h
        obtain ⟨hfirst, hall⟩ := Bool.and_eq_true_iff.mp h
        have hall : ∀ c ∈ cs, Shape.isNameChar c = true := List.all_eq_true.mp hall
        refine ⟨?_, List.cons_ne_nil _ _⟩
        -- A letter begins a run of characters of names, a sign a word of signs and such characters.
        by_cases halpha : c.isAlpha = true
        · have hrun := Shape.run_append hall (Shape.startsWith_nil _)
          rw [List.append_nil] at hrun
          rw [Shape.identifier, if_pos halpha, hrun, List.length_cons]
        · have hsigil : Shape.isSigil c = true ∧ cs ≠ [] := by simpa [halpha] using hfirst
          rw [Shape.identifier, if_neg halpha, sigilWord_cons hsigil.1 hsigil.2 hall]
  have hpos : Shape.identifier name.toList ≠ 0 := by
    rw [hlength.1]
    exact fun hzero => hlength.2 (List.length_eq_zero_iff.mp hzero)
  have hword := Shape.identifier_scans.isWord_take hpos
  rwa [hlength.1, List.take_length] at hword

/-- What begins a name or a parameter is no digit, so no dot in front of it begins a number. -/
theorem Identifier.render_not_digit (id : Identifier) (rest : List Char) :
    startsWith Char.isDigit (id.render.toList ++ rest) = false := by
  rw [Identifier.render_eq]
  by_cases hencoded : id.isEncoded = true
  · rw [if_pos hencoded, Text.Backquoted.encode, String.toList_ofList]
    rfl
  · have hbare : hasBareShape id.name = true := by
      simp only [isEncoded, Bool.or_eq_true, not_or] at hencoded
      simpa using hencoded.1.2
    rw [if_neg hencoded]
    unfold hasBareShape at hbare
    cases hname : id.name.toList with
    | nil => rw [hname] at hbare; cases hbare
    | cons c cs =>
        rw [hname] at hbare
        obtain ⟨hfirst, -⟩ := Bool.and_eq_true_iff.mp hbare
        cases hdigit : c.isDigit with
        | false => exact hdigit
        -- A name that is printed as it is begins with a letter, an underscore or `@`.
        | true =>
            rcases Bool.or_eq_true_iff.mp hfirst with halpha | hsigil
            · rw [Shape.not_isAlpha_of_isDigit hdigit] at halpha
              cases halpha
            · rcases Bool.or_eq_true_iff.mp (Bool.and_eq_true_iff.mp hsigil).1 with h | h
              · rw [of_decide_eq_true h] at hdigit
                exact absurd hdigit (by decide)
              · rw [of_decide_eq_true h] at hdigit
                exact absurd hdigit (by decide)

/-- What a name is written as is a token, and stands for the name. -/
theorem Identifier.forms_render (hmode : mode.ReadsNames preview) (name : Identifier) :
    name.isEncoded = true ∧ Forms preview mode .quotedIdentifier name.render.toList ∧
        Text.Backquoted.decode name.render = name.name ∨
      name.isEncoded = false ∧ Forms preview mode .identifier name.render.toList ∧
        name.render = name.name := by
  rw [Identifier.render_eq]
  cases hencoded : name.isEncoded with
  | true =>
      have hopened : (Text.Backquoted.encode name.name).toList.head? = some '\x60' := by
        rw [Text.Backquoted.encode, String.toList_ofList]
        rfl
      exact .inl ⟨rfl, .quotedName hmode.hasQuotedNames (Text.Backquoted.length?_encode _) hopened,
        Text.Backquoted.decode_encode _⟩
  -- The name has the shape of a word and is none that the mode makes a keyword of.
  | false =>
      simp only [isEncoded, Bool.or_eq_false_iff, Bool.not_eq_false'] at hencoded
      obtain ⟨⟨-, hbare⟩, hreserved⟩ := hencoded
      have hword : IsWord (scan mode) (carries mode) name.name.toList := by
        rw [hmode.scan_eq, hmode.carries_eq]
        exact identifier_of_hasBareShape hbare
      have hforms : Forms preview mode (wordKind preview mode (String.ofList name.name.toList))
          name.name.toList := .word hword
      rw [String.ofList_toList, hmode.wordKind_eq _ hreserved] at hforms
      exact .inr ⟨rfl, hforms, rfl⟩

/-- A name is read back, whatever its characters are. -/
theorem Identifier.prints (hmode : mode.ReadsNames preview) (name : Identifier) :
    Prints preview mode id name.render.toList carriesName
      (Rewrites (fun w name => ∃ l, w = [l] ∧ IsIdentifier l name) core name) := by
  rcases name.forms_render hmode with ⟨hencoded, hforms, hname⟩ | ⟨hencoded, hforms, hname⟩
  · refine ((Prints.piece hforms (Mode.behind_eq hmode.isSteady rfl)).mono fun c hc => ?_).imp ?_
    · simp only [continues, decide_eq_true_eq] at hc
      simp [carriesName, hc]
    · rintro w ⟨l, rfl, hkind, htext⟩
      refine ⟨_, ⟨l, rfl, .quoted hkind⟩, ?_⟩
      rw [htext, String.ofList_toList, hname]
      rw [core, core, hencoded]
      rfl
  · refine ((Prints.piece hforms (Mode.behind_eq hmode.isSteady rfl)).mono fun c hc => ?_).imp ?_
    · simp only [continues, Kind.isWord, hmode.carries_eq, Bool.true_and] at hc
      simp [carriesName, hc]
    · rintro w ⟨l, rfl, hkind, htext⟩
      refine ⟨_, ⟨l, rfl, .bare hkind⟩, ?_⟩
      simp only [isEncoded, Bool.or_eq_false_iff, Bool.not_eq_false'] at hencoded
      obtain ⟨⟨hquoted, hbare⟩, hreserved⟩ := hencoded
      rw [htext, String.ofList_toList, hname]
      simp [core, isEncoded, hquoted, hbare, hreserved]

/-- What stands behind the mark is the name or the number of the parameter. -/
theorem parameterBody_eq {t : Token} {body : List Char} (h : t.text.toList = '?' :: body) :
    parameterBody t = body := by
  simp [parameterBody, h]

/-- Digits are a word behind the question mark of a parameter. -/
theorem parameter_of_digits {digits : List Char} (hne : digits ≠ [])
    (hall : ∀ c ∈ digits, c.isDigit = true) :
    IsWord Shape.parameter Shape.isNameChar digits := by
  have hrun := Shape.run_append hall (Shape.startsWith_nil _)
  rw [List.append_nil] at hrun
  have hstart : ¬ startsWith (fun c => c.isAlpha || c = '_') digits = true := by
    cases digits with
    | nil => exact absurd rfl hne
    | cons c digits =>
        have hdigit := hall c (by simp)
        have hunderscore : c ≠ '_' := by rintro rfl; exact absurd hdigit (by decide)
        simp [Shape.not_isAlpha_of_isDigit hdigit, hunderscore]
  have hlength : Shape.parameter digits = digits.length := by
    rw [Shape.parameter, if_neg hstart, hrun]
  have hpos : Shape.parameter digits ≠ 0 := by
    rw [hlength]
    exact fun hzero => hne (List.length_eq_zero_iff.mp hzero)
  have hword := Shape.parameter_scans.isWord_take hpos
  rwa [hlength, List.take_length] at hword

/-- A parameter is read back if it was one. -/
theorem Parameter.prints (hparameters : hasParameters mode = true) (hsteady : mode.isSteady = true)
    {l : Lexeme} {param : Parameter} (h : IsParameter l param) {mode' : Mode}
    (hl : Forms preview mode' l.token.kind l.token.text.toList) :
    Prints preview mode id param.render.toList Shape.isNameChar
      (fun w => ∃ l', w = [l'] ∧ IsParameter l' param) := by
  cases h with
  | anonymous h =>
      refine (Prints.piece (.anonymous hparameters) (Mode.behind_eq hsteady rfl)).imp ?_
      rintro w ⟨l', rfl, hkind, -⟩
      exact ⟨l', rfl, .anonymous hkind⟩
  | named h hdigits =>
      rw [h] at hl
      obtain ⟨body, htext, hbody⟩ := hl.parameter_body
      have hname : parameterBody l.token = body := parameterBody_eq htext
      rw [hname] at hdigits ⊢
      have hrender : (Parameter.render (.named (String.ofList body))).toList = '?' :: body := by
        rw [Parameter.render, String.toList_append, String.toList_ofList]
        simp
      rw [hrender]
      refine (Prints.piece (.param hparameters hbody) (Mode.behind_eq hsteady rfl)).imp ?_
      rintro w ⟨l', rfl, hkind, htext'⟩
      have hname' : parameterBody l'.token = body :=
        parameterBody_eq (by rw [htext', String.toList_ofList])
      rw [← hname'] at hdigits ⊢
      exact ⟨l', rfl, .named hkind hdigits⟩
  -- Digits are not kept, only their value: what is printed may be shorter than what was read.
  | positional h hdigits hfits =>
      generalize Text.decimalValue (parameterBody l.token) = index at hfits
      have hrender : (Parameter.render (.positional index)).toList =
          '?' :: (toString index).toList := by
        rw [Parameter.render, String.toList_append]
        rfl
      have hall := Text.isDigit_toString index
      have hbody := parameter_of_digits (Text.toString_ne_nil index) hall
      rw [hrender]
      refine (Prints.piece (.param hparameters hbody) (Mode.behind_eq hsteady rfl)).imp ?_
      rintro w ⟨l', rfl, hkind, htext'⟩
      have hname' : parameterBody l'.token = (toString index).toList :=
        parameterBody_eq (by rw [htext', String.toList_ofList])
      have hvalue : Text.decimalValue (parameterBody l'.token) = index := by
        rw [hname', Text.decimalValue_toString]
      refine ⟨l', rfl, ?_⟩
      rw [← hvalue] at hfits
      have := IsParameter.positional hkind (by rw [hname']; exact List.all_eq_true.mpr hall) hfits
      rwa [hvalue] at this

/-- A parameter is no error. -/
theorem Parser.IsParameter.kind_ne_error {l : Lexeme} {param : Parameter}
    (h : IsParameter l param) : l.token.kind ≠ .error := by
  cases h with
  | anonymous h | positional h | named h => simp [h]

/-- A part of a name is written as it is read. -/
theorem NamePart.prints (hmode : mode.ReadsNames preview) {w : List Lexeme} {part : NamePart}
    (h : IsNamePart w part) {m : ModeStack} (hw : Lexed preview m w) :
    Prints preview mode id part.render.toList carriesName (Rewrites IsNamePart core part) := by
  cases h with
  | @identifier l name h =>
      refine (name.prints hmode).imp ?_
      rintro w ⟨name', ⟨l', rfl, hname⟩, hcore⟩
      exact ⟨.identifier name', .identifier hname, congrArg NamePart.identifier hcore⟩
  | @parameter l param h =>
      refine ((Parameter.prints hmode.hasParameters hmode.isSteady h
        (hw.head h.kind_ne_error).1).mono fun c hc => ?_).imp ?_
      · simp [carriesName, hc]
      · rintro w ⟨l', rfl, hparam⟩
        exact ⟨_, .parameter hparam, rfl⟩

/-- A part of a name begins with no digit, so the dot in front of it is not the point of a number.
-/
theorem NamePart.render_not_digit (part : NamePart) (rest : List Char) :
    startsWith Char.isDigit (part.render.toList ++ rest) = false := by
  cases part with
  | identifier name => exact name.render_not_digit rest
  | parameter param =>
      obtain ⟨body, hbody⟩ : ∃ body, param.render.toList = '?' :: body := by
        cases param with
        | anonymous => exact ⟨[], rfl⟩
        | named name => exact ⟨name.toList, by simp [Parameter.render]⟩
        | positional index => exact ⟨(toString index).toList, by simp [Parameter.render]⟩
      rw [render, hbody]
      rfl

/-- A dot is read back where the mode is kept. Only a digit could continue it there, as the first
digit behind a point. -/
theorem prints_dot (hforms : Forms preview mode .dot ['.']) (hsteady : mode.isSteady = true) :
    Prints preview mode id ".".toList Char.isDigit (IsKind .dot) := by
  have hlookup : mode ≠ .lookup := by
    rintro rfl
    cases hsteady
  refine ((Prints.piece hforms (Mode.behind_eq hsteady rfl)).mono fun c hc => ?_).imp
    fun _ => IsToken.isKind
  simpa [continues, hlookup] using hc

/-- A dotted name is read back. -/
theorem FieldName.prints (hmode : mode.ReadsNames preview) {w : List Lexeme} {name : FieldName}
    (h : IsFieldName w name) {m : ModeStack} (hw : Lexed preview m w) :
    Prints preview mode id name.render.toList carriesName (Rewrites IsFieldName core name) := by
  obtain ⟨hparts⟩ := h
  have hlexed := hparts.lexed (P := fun _ => True) (by simp) (fun _ _ => trivial)
    (fun _ _ hw => hw.right.imp fun _ h => ⟨trivial, h⟩) trivial hw
  have hall := (prints_dot hmode.dot hmode.isSteady).separated (fun _ => rfl) hparts.ne_nil
    (fun part hpart => by
      obtain ⟨m', w', -, hpart, hw'⟩ := hlexed part hpart
      exact NamePart.prints hmode hpart hw')
    fun part _ => part.render_not_digit
  refine hall.imp ?_
  rintro w ⟨parts, hparts, hcores⟩
  cases parts with
  | nil => exact absurd rfl hparts.ne_nil
  | cons part parts =>
      refine ⟨_, .mk hparts, ?_⟩
      rw [core, core, hcores]

end PipeQuery
