import Mathlib.Data.List.Basic
import Mathlib.Data.List.TakeWhile
import WorkflowEngine.Config.Substitution

/-! # Filling a Text in One Pass

    A text falls into plain characters and placeholders. Filling it at once
    puts the value of each variable that is set in the place of its
    placeholders and leaves the rest alone. `substitute` fills one placeholder
    after the other wherever it stands by then, so it may fill one that has
    come with a value, or that values have put together.

    Both agree, in whatever order the placeholders are taken, exactly if
    filling any of them once more would leave the text filled at once as it is.
-/

namespace WorkflowEngine

namespace Placeholder

/-! ## Names -/

/-- A variable name: its first character, then more of them. -/
def IsName : List Char → Prop
  | [] => False
  | c :: rest => isNameStart c ∧ ∀ d ∈ rest, isNameChar d

theorem not_isNameChar_dollar : ¬ isNameChar '$' := by decide

theorem not_isNameChar_brace : ¬ isNameChar '\x7d' := by decide

theorem IsName.isNameChar {name : List Char} (h : IsName name) : ∀ c ∈ name, isNameChar c := by
  cases name with
  | nil => cases h
  | cons c rest =>
    intro d hd
    rcases List.mem_cons.mp hd with rfl | hd
    · simp [Placeholder.isNameChar, h.1]
    · exact h.2 d hd

/-- What follows the dollar sign of a placeholder. -/
def tail (name : List Char) : List Char := '\x7b' :: name ++ ['\x7d']

theorem ofName_eq_cons (name : List Char) : ofName name = '$' :: tail name := rfl

theorem ofName_append (c : Char) (name rest : List Char) :
    ofName (c :: name) ++ rest = '$' :: '\x7b' :: c :: (name ++ '\x7d' :: rest) := by
  simp [ofName]

/-- A placeholder has one dollar sign only. -/
theorem IsName.dollar_not_mem_tail {name : List Char} (h : IsName name) : '$' ∉ tail name := by
  intro hmem
  have hname : '$' ∈ name := by simpa [tail] using hmem
  exact not_isNameChar_dollar (h.isNameChar '$' hname)

/-- What is found at the front of a text is a placeholder that stands there. -/
theorem name?_eq_some_iff {text name : List Char} :
    name? text = some name ↔ IsName name ∧ ofName name <+: text := by
  constructor
  · intro h
    unfold name? at h
    split at h
    · rename_i c rest
      split at h
      · rename_i hstart
        split at h
        · rename_i rest' hrest
          cases h
          have hsplit := List.takeWhile_append_dropWhile (p := Placeholder.isNameChar) (l := rest)
          rw [hrest] at hsplit
          refine ⟨⟨hstart, fun d hd => List.mem_takeWhile_imp hd⟩, rest', ?_⟩
          rw [ofName_append, hsplit]
        · cases h
      · cases h
    · cases h
  · rintro ⟨hname, rest, rfl⟩
    cases name with
    | nil => cases hname
    | cons c name =>
      obtain ⟨hstart, hchars⟩ := hname
      have htake : (name ++ '\x7d' :: rest).takeWhile Placeholder.isNameChar = name := by
        rw [List.takeWhile_append_of_pos hchars,
          List.takeWhile_cons_of_neg not_isNameChar_brace, List.append_nil]
      have hdrop : (name ++ '\x7d' :: rest).dropWhile Placeholder.isNameChar = '\x7d' :: rest := by
        rw [List.dropWhile_append_of_pos hchars,
          List.dropWhile_cons_of_neg not_isNameChar_brace]
      rw [ofName_append]
      simp only [name?, hstart, if_true, hdrop, htake]

theorem name?_ofName {name : List Char} (h : IsName name) (rest : List Char) :
    name? (ofName name ++ rest) = some name :=
  name?_eq_some_iff.mpr ⟨h, List.prefix_append _ _⟩

/-- At most one placeholder stands at the front of a text. -/
theorem IsName.eq_of_front {name name' text : List Char} (h : IsName name) (h' : IsName name')
    (hfront : ofName name <+: text) (hfront' : ofName name' <+: text) : name = name' := by
  have hfound := name?_eq_some_iff.mpr ⟨h, hfront⟩
  have hfound' := name?_eq_some_iff.mpr ⟨h', hfront'⟩
  exact Option.some.inj (hfound.symm.trans hfound')

theorem name?_of_ne {c : Char} (h : c ≠ '$') (rest : List Char) : name? (c :: rest) = none := by
  cases hname : name? (c :: rest) with
  | none => rfl
  | some name =>
    obtain ⟨-, hfront⟩ := name?_eq_some_iff.mp hname
    rw [ofName_eq_cons, List.cons_prefix_cons] at hfront
    exact absurd hfront.1.symm h

/-! ## Pieces -/

/-- A piece of a text. -/
inductive Piece where
  | plain (c : Char)
  | placeholder (name : List Char)

/-- The pieces of a text from the left, after passing over a number of characters. -/
def piecesAfter : Nat → List Char → List Piece
  | _, [] => []
  | n + 1, _ :: rest => piecesAfter n rest
  | 0, c :: rest =>
    match name? (c :: rest) with
    | some name => .placeholder name :: piecesAfter (tail name).length rest
    | none => .plain c :: piecesAfter 0 rest

/-- The pieces of a text from the left. -/
def pieces (text : List Char) : List Piece := piecesAfter 0 text

theorem piecesAfter_append (passed rest : List Char) :
    piecesAfter passed.length (passed ++ rest) = pieces rest := by
  induction passed with
  | nil => rfl
  | cons c passed ih => exact ih

theorem pieces_placeholder {name : List Char} (h : IsName name) (rest : List Char) :
    pieces (ofName name ++ rest) = .placeholder name :: pieces rest := by
  have hfound := name?_ofName h rest
  rw [ofName_eq_cons, List.cons_append] at hfound ⊢
  simp only [pieces, piecesAfter, hfound]
  rw [piecesAfter_append]
  rfl

theorem pieces_plain {c : Char} {rest : List Char} (h : name? (c :: rest) = none) :
    pieces (c :: rest) = .plain c :: pieces rest := by
  simp only [pieces, piecesAfter, h]

/-- A text is built from the right by its pieces. -/
@[elab_as_elim]
theorem piece_induction {motive : List Char → Prop} (nil : motive [])
    (placeholder : ∀ name rest, IsName name → motive rest → motive (ofName name ++ rest))
    (plain : ∀ c rest, name? (c :: rest) = none → motive rest → motive (c :: rest))
    (text : List Char) : motive text := by
  induction hlength : text.length using Nat.strong_induction_on generalizing text with
  | _ n ih =>
    subst hlength
    cases text with
    | nil => exact nil
    | cons c rest =>
      cases hname : name? (c :: rest) with
      | none => exact plain c rest hname (ih rest.length (by simp) rest rfl)
      | some name =>
        obtain ⟨hvalid, rest', hrest⟩ := name?_eq_some_iff.mp hname
        rw [← hrest] at ih ⊢
        have hshorter : rest'.length < (ofName name ++ rest').length := by
          simp [ofName]
          omega
        exact placeholder name rest' hvalid (ih rest'.length hshorter rest' rfl)

/-- Looking for names passes over the inside of a placeholder. -/
theorem names_append {passed : List Char} (h : '$' ∉ passed) (rest : List Char) :
    names (passed ++ rest) = names rest := by
  induction passed with
  | nil => rfl
  | cons c passed ih =>
    obtain ⟨hc, hpassed⟩ := List.ne_and_not_mem_of_not_mem_cons h
    rw [List.cons_append]
    simp only [names, name?_of_ne hc.symm]
    exact ih hpassed

theorem names_placeholder {name : List Char} (h : IsName name) (rest : List Char) :
    names (ofName name ++ rest) = name :: names rest := by
  have hfound := name?_ofName h rest
  rw [ofName_eq_cons, List.cons_append] at hfound ⊢
  simp only [names, hfound]
  rw [names_append h.dollar_not_mem_tail]

theorem mem_pieces_iff {text name : List Char} :
    .placeholder name ∈ pieces text ↔ name ∈ names text := by
  induction text using piece_induction with
  | nil => simp [pieces, piecesAfter, names]
  | placeholder name' rest h ih => simp [pieces_placeholder h, names_placeholder h, ih]
  | plain c rest h ih => simp [pieces_plain h, names, h, ih]

theorem isName_of_mem_names {text name : List Char} (h : name ∈ names text) : IsName name := by
  induction text using piece_induction with
  | nil => cases h
  | placeholder name' rest hname ih =>
    rw [names_placeholder hname] at h
    rcases List.mem_cons.mp h with rfl | h
    · exact hname
    · exact ih h
  | plain c rest hnone ih =>
    simp only [names, hnone] at h
    exact ih h

/-! ## Replacing one word -/

section Replacing

variable {word value : List Char}

theorem replaceAfter_append (word value passed rest : List Char) :
    replaceAfter word value passed.length (passed ++ rest) = replace word value rest := by
  induction passed with
  | nil => rfl
  | cons c passed ih => exact ih

theorem replace_word (h : word ≠ []) (rest : List Char) :
    replace word value (word ++ rest) = value ++ replace word value rest := by
  cases word with
  | nil => exact absurd rfl h
  | cons c word =>
    have hfront : (c :: word).isPrefixOf (c :: (word ++ rest)) = true :=
      List.isPrefixOf_iff_prefix.mpr (List.prefix_append (c :: word) rest)
    show replaceAfter (c :: word) value 0 (c :: (word ++ rest)) = _
    rw [replaceAfter, if_pos hfront]
    exact congrArg (value ++ ·) (replaceAfter_append (c :: word) value word rest)

theorem replace_cons {c : Char} {rest : List Char} (h : ¬ word <+: c :: rest) :
    replace word value (c :: rest) = c :: replace word value rest := by
  have hfront : ¬ word.isPrefixOf (c :: rest) = true :=
    fun hword => h (List.isPrefixOf_iff_prefix.mp hword)
  show replaceAfter word value 0 (c :: rest) = _
  rw [replaceAfter, if_neg hfront]
  rfl

/-- A part in which the word does not begin stays as it is. -/
theorem replace_append {part rest : List Char}
    (h : ∀ s, s <:+ part → s ≠ [] → ¬ word <+: s ++ rest) :
    replace word value (part ++ rest) = part ++ replace word value rest := by
  induction part with
  | nil => rfl
  | cons c part ih =>
    have hfront : ¬ word <+: c :: (part ++ rest) := h (c :: part) (List.suffix_refl _) (by simp)
    rw [List.cons_append, replace_cons hfront,
      ih fun s hs => h s (hs.trans (List.suffix_cons c part)), List.cons_append]

theorem replaceAfter_self (h : word ≠ []) (n : Nat) (text : List Char) :
    replaceAfter word word n text = text.drop n := by
  induction text generalizing n with
  | nil => simp [replaceAfter]
  | cons c rest ih =>
    cases n with
    | succ n => exact ih n
    | zero =>
      rw [replaceAfter]
      split
      · rename_i hfront
        obtain ⟨rest', hrest⟩ := List.isPrefixOf_iff_prefix.mp hfront
        rw [ih]
        cases word with
        | nil => exact absurd rfl h
        | cons d word =>
          obtain ⟨rfl, rfl⟩ := List.cons.inj hrest
          simp
      · rw [ih]
        rfl

theorem length_replaceAfter_le (h : value.length ≤ word.length) (n : Nat) (text : List Char) :
    (replaceAfter word value n text).length ≤ text.length - n := by
  induction text generalizing n with
  | nil => simp [replaceAfter]
  | cons c rest ih =>
    cases n with
    | succ n =>
      have hrest := ih n
      simp only [replaceAfter, List.length_cons]
      omega
    | zero =>
      rw [replaceAfter]
      split
      · rename_i hfront
        have hlength := (List.isPrefixOf_iff_prefix.mp hfront).length_le
        have hrest := ih (word.length - 1)
        simp only [List.length_append, List.length_cons] at hlength ⊢
        omega
      · simpa using ih 0

theorem le_length_replaceAfter (hword : word ≠ []) (h : word.length ≤ value.length) (n : Nat)
    (text : List Char) : text.length - n ≤ (replaceAfter word value n text).length := by
  induction text generalizing n with
  | nil => simp [replaceAfter]
  | cons c rest ih =>
    cases n with
    | succ n =>
      have hrest := ih n
      simp only [replaceAfter, List.length_cons]
      omega
    | zero =>
      rw [replaceAfter]
      split
      · have hpos := List.length_pos_iff.mpr hword
        have hrest := ih (word.length - 1)
        simp only [List.length_append, List.length_cons]
        omega
      · simpa using ih 0

/-- Replacing a word changes a text in which it stands, unless by the word itself. -/
theorem eq_of_replace_eq_self (h : word ≠ []) {text : List Char}
    (hsame : replace word value text = text) (hmem : word <:+: text) : value = word := by
  induction text with
  | nil => exact absurd (List.infix_nil.mp hmem) h
  | cons c rest ih =>
    by_cases hfront : word <+: c :: rest
    · obtain ⟨rest', hrest⟩ := hfront
      rw [← hrest, replace_word h] at hsame
      have hlengths := congrArg List.length hsame
      simp only [List.length_append] at hlengths
      -- What follows gets shorter or longer together with the word.
      have hlength : value.length = word.length := by
        rcases Nat.le_total value.length word.length with hle | hle
        · have hshort := length_replaceAfter_le hle 0 rest'
          unfold replace at hlengths
          omega
        · have hlong := le_length_replaceAfter h hle 0 rest'
          unfold replace at hlengths
          omega
      exact (List.append_inj hsame hlength).1
    · rw [replace_cons hfront] at hsame
      exact ih (List.cons.inj hsame).2 ((List.infix_cons_iff.mp hmem).resolve_left hfront)

end Replacing

/-! ## Filling pieces -/

/-- Values of some variables. -/
abbrev Values := List Char → Option (List Char)

/-- A piece with the value of its variable, if that is set. -/
def Piece.filled (values : Values) : Piece → List Char
  | plain c => [c]
  | placeholder name => (values name).getD (ofName name)

/-- The text of some pieces with the values of their variables. -/
def fillPieces (values : Values) (ps : List Piece) : List Char := ps.flatMap (Piece.filled values)

theorem filled_placeholder (values : Values) (name : List Char) :
    (Piece.placeholder name).filled values = (values name).getD (ofName name) := rfl

theorem fillPieces_cons (values : Values) (p : Piece) (ps : List Piece) :
    fillPieces values (p :: ps) = p.filled values ++ fillPieces values ps := rfl

theorem fillPieces_congr {values values' : Values} {ps : List Piece}
    (h : ∀ name, .placeholder name ∈ ps →
      (values name).getD (ofName name) = (values' name).getD (ofName name)) :
    fillPieces values ps = fillPieces values' ps := by
  unfold fillPieces
  refine List.flatMap_congr fun p hp => ?_
  cases p with
  | plain c => rfl
  | placeholder name => exact h name hp

/-- With no values the pieces give the text back. -/
theorem fillPieces_pieces (text : List Char) : fillPieces (fun _ => none) (pieces text) = text := by
  induction text using piece_induction with
  | nil => rfl
  | placeholder name rest h ih =>
    rw [pieces_placeholder h, fillPieces_cons, ih]
    rfl
  | plain c rest h ih =>
    rw [pieces_plain h, fillPieces_cons, ih]
    rfl

/-- The values of some variables only. -/
def restrict (done : List (List Char)) (values : Values) (name : List Char) : Option (List Char) :=
  if name ∈ done then values name else none

variable {values : Values} {done : List (List Char)} {ps : List Piece} {name value : List Char}

theorem restrict_of_mem (h : name ∈ done) : restrict done values name = values name := if_pos h

theorem restrict_of_not_mem (h : name ∉ done) : restrict done values name = none := if_neg h

theorem eq_some_of_restrict (h : restrict done values name = some value) :
    values name = some value := by
  unfold restrict at h
  split at h
  · exact h
  · cases h

theorem prefix_append_mono {word part rest rest' : List Char} (h : word <+: part ++ rest)
    (hrest : ∀ s, s <:+ word → s <+: rest → s <+: rest') : word <+: part ++ rest' := by
  induction part generalizing word with
  | nil => exact hrest word (List.suffix_refl _) h
  | cons c part ih =>
    rcases List.prefix_cons_iff.mp h with rfl | ⟨word, rfl, hword⟩
    · exact List.nil_prefix
    · refine List.cons_prefix_cons.mpr ⟨rfl, ih hword fun s hs => hrest s ?_⟩
      exact hs.trans (List.suffix_cons c word)

/-- Without a dollar sign, what can be read in front before all values are put in can be read
    afterwards: it reaches into no placeholder. -/
theorem prefix_fillPieces {word : List Char} (hdollar : '$' ∉ word)
    (h : word <+: fillPieces (restrict done values) ps) : word <+: fillPieces values ps := by
  induction ps generalizing word with
  | nil => exact h
  | cons p ps ih =>
    rw [fillPieces_cons] at h ⊢
    have hlater : ∀ s, s <:+ word → s <+: fillPieces (restrict done values) ps →
        s <+: fillPieces values ps :=
      fun s hs => ih fun hmem => hdollar (hs.subset hmem)
    cases p with
    | plain c => exact prefix_append_mono h hlater
    | placeholder name =>
      rw [filled_placeholder] at h ⊢
      cases hvalue : restrict done values name with
      | some value =>
        rw [eq_some_of_restrict hvalue]
        rw [hvalue] at h
        exact prefix_append_mono h hlater
      | none =>
        rw [hvalue, Option.getD_none, ofName_eq_cons] at h
        rcases List.prefix_cons_iff.mp h with rfl | ⟨word, rfl, -⟩
        · exact List.nil_prefix
        · exact absurd List.mem_cons_self hdollar

/-- A placeholder that does not stand in the filled text begins in none of the parts put in. -/
theorem not_prefix_of_clean {part : List Char} (hname : IsName name)
    (hclean : ¬ ofName name <:+: part ++ fillPieces values ps) (s : List Char) (hs : s <:+ part)
    (hne : s ≠ []) : ¬ ofName name <+: s ++ fillPieces (restrict done values) ps := by
  intro hfront
  refine hclean ?_
  cases s with
  | nil => exact absurd rfl hne
  | cons c s =>
    rw [ofName_eq_cons, List.cons_append, List.cons_prefix_cons] at hfront
    obtain ⟨rfl, htail⟩ := hfront
    have hfilled : tail name <+: s ++ fillPieces values ps := by
      refine prefix_append_mono htail fun s' hs' => prefix_fillPieces fun hmem => ?_
      exact hname.dollar_not_mem_tail (hs'.subset hmem)
    have hstands : ofName name <+: ('$' :: s) ++ fillPieces values ps :=
      List.cons_prefix_cons.mpr ⟨rfl, hfilled⟩
    obtain ⟨front, rfl⟩ := hs
    rw [List.append_assoc]
    exact hstands.isInfix.trans (List.suffix_append front _).isInfix

/-- In a placeholder no other one begins. -/
theorem not_prefix_of_ne {name' : List Char} (hname : IsName name) (hname' : IsName name')
    (hne : name ≠ name') (rest s : List Char) (hs : s <:+ ofName name') (hs' : s ≠ []) :
    ¬ ofName name <+: s ++ rest := by
  intro hfront
  rcases List.suffix_cons_iff.mp hs with rfl | hinside
  · exact hne (hname.eq_of_front hname' hfront (List.prefix_append (ofName name') rest))
  · cases s with
    | nil => exact hs' rfl
    | cons c s =>
      rw [ofName_eq_cons, List.cons_append, List.cons_prefix_cons] at hfront
      obtain ⟨rfl, -⟩ := hfront
      exact hname'.dollar_not_mem_tail (hinside.subset List.mem_cons_self)

/-- **One variable more.** If its placeholder does not stand in the text filled at once,
    replacing it fills its own places and no others. -/
theorem replace_fillPieces (hname : IsName name) (hvalue : values name = some value)
    (hps : ∀ name', .placeholder name' ∈ ps → IsName name')
    (hclean : ¬ ofName name <:+: fillPieces values ps) :
    replace (ofName name) value (fillPieces (restrict done values) ps) =
      fillPieces (restrict (name :: done) values) ps := by
  induction ps with
  | nil => rfl
  | cons p ps ih =>
    have hrest : replace (ofName name) value (fillPieces (restrict done values) ps) =
        fillPieces (restrict (name :: done) values) ps :=
      ih (fun name' h => hps name' (List.mem_cons_of_mem _ h))
        fun h => hclean (h.trans (List.suffix_append _ _).isInfix)
    -- A piece that has its final text is passed over.
    have hfinal : p.filled (restrict done values) = p.filled values →
        p.filled (restrict (name :: done) values) = p.filled values →
        replace (ofName name) value (fillPieces (restrict done values) (p :: ps)) =
          fillPieces (restrict (name :: done) values) (p :: ps) := by
      intro hbefore hafter
      rw [fillPieces_cons, fillPieces_cons, hbefore, hafter, ← hrest]
      exact replace_append (not_prefix_of_clean hname hclean)
    cases p with
    | plain c => exact hfinal rfl rfl
    | placeholder name' =>
      by_cases hdone : name' ∈ done
      · refine hfinal ?_ ?_
        · rw [filled_placeholder, restrict_of_mem hdone, filled_placeholder]
        · rw [filled_placeholder, restrict_of_mem (List.mem_cons_of_mem _ hdone),
            filled_placeholder]
      rw [fillPieces_cons, fillPieces_cons, filled_placeholder, filled_placeholder,
        restrict_of_not_mem hdone, Option.getD_none]
      by_cases hsame : name' = name
      · subst hsame
        rw [restrict_of_mem List.mem_cons_self, hvalue, Option.getD_some, ← hrest]
        exact replace_word (by simp [ofName]) _
      · have hlater : name' ∉ name :: done := by simp [hsame, hdone]
        rw [restrict_of_not_mem hlater, Option.getD_none, ← hrest]
        exact replace_append
          (not_prefix_of_ne hname (hps name' List.mem_cons_self) (Ne.symm hsame) _)

/-! ## One pass -/

/-- The values that are set in an environment. -/
def valuesOf (env : Environment) : Values :=
  fun name => (env (String.ofList name)).map String.toList

/-- A text in which all placeholders are filled at once. -/
def fillAtOnce (env : Environment) (text : String) : String :=
  String.ofList (fillPieces (valuesOf env) (pieces text.toList))

/-- A text in which placeholders are filled one after the other. -/
def fillInOrder (env : Environment) (order : List (List Char)) (text : String) : String :=
  String.ofList (order.foldl (fill env) text.toList)

/-- Filling the placeholders of a text once more would leave the text filled at once as it is. -/
def Settles (env : Environment) (text : String) : Prop :=
  ∀ name ∈ names text.toList, fillInOrder env [name] (fillAtOnce env text) = fillAtOnce env text

theorem fill_of_value {env : Environment} (h : valuesOf env name = some value) (text : List Char) :
    fill env text name = replace (ofName name) value text := by
  unfold valuesOf at h
  obtain ⟨v, hv, rfl⟩ := Option.map_eq_some_iff.mp h
  simp only [fill, hv]

theorem fill_of_none {env : Environment} (h : valuesOf env name = none) (text : List Char) :
    fill env text name = text := by
  unfold valuesOf at h
  simp only [fill, Option.map_eq_none_iff.mp h]

/-- Filling a variable reaches its own places and no others, if filling it once more would
    change nothing. -/
theorem fill_fillPieces {env : Environment} (hname : IsName name)
    (hps : ∀ name', .placeholder name' ∈ ps → IsName name')
    (hsettled : fill env (fillPieces (valuesOf env) ps) name = fillPieces (valuesOf env) ps) :
    fill env (fillPieces (restrict done (valuesOf env)) ps) name =
      fillPieces (restrict (name :: done) (valuesOf env)) ps := by
  have hne : ofName name ≠ [] := by simp [ofName]
  -- Without a value of its own, or with its placeholder for a value, it stays as it is.
  have hsame : (valuesOf env name).getD (ofName name) = ofName name →
      fillPieces (restrict done (valuesOf env)) ps =
        fillPieces (restrict (name :: done) (valuesOf env)) ps := by
    intro hself
    refine fillPieces_congr fun name' _ => ?_
    by_cases hmem : name' = name
    · subst hmem
      rw [restrict_of_mem List.mem_cons_self, hself]
      unfold restrict
      split
      · exact hself
      · rfl
    · simp [restrict, hmem]
  cases hvalue : valuesOf env name with
  | none =>
    rw [fill_of_none hvalue]
    exact hsame (by rw [hvalue, Option.getD_none])
  | some value =>
    rw [fill_of_value hvalue] at hsettled ⊢
    by_cases hclean : ofName name <:+: fillPieces (valuesOf env) ps
    · obtain rfl := eq_of_replace_eq_self hne hsettled hclean
      have hself := replaceAfter_self hne 0 (fillPieces (restrict done (valuesOf env)) ps)
      rw [replace, hself]
      exact hsame (by rw [hvalue, Option.getD_some])
    · exact replace_fillPieces hname hvalue hps hclean

theorem foldl_fill {env : Environment} (hps : ∀ name', .placeholder name' ∈ ps → IsName name')
    (order : List (List Char))
    (horder : ∀ name ∈ order, IsName name ∧
      fill env (fillPieces (valuesOf env) ps) name = fillPieces (valuesOf env) ps) :
    order.foldl (fill env) (fillPieces (restrict done (valuesOf env)) ps) =
      fillPieces (restrict (order.reverse ++ done) (valuesOf env)) ps := by
  induction order generalizing done with
  | nil => rfl
  | cons name order ih =>
    obtain ⟨hname, hsettled⟩ := horder name List.mem_cons_self
    rw [List.foldl_cons, fill_fillPieces hname hps hsettled,
      ih fun name' h => horder name' (List.mem_cons_of_mem _ h)]
    simp

theorem foldl_fill_names {env : Environment} {text : List Char} {order : List (List Char)}
    (horder : ∀ name, name ∈ order ↔ name ∈ names text)
    (hsettles : ∀ name ∈ names text,
      fill env (fillPieces (valuesOf env) (pieces text)) name =
        fillPieces (valuesOf env) (pieces text)) :
    order.foldl (fill env) text = fillPieces (valuesOf env) (pieces text) := by
  have hps : ∀ name, .placeholder name ∈ pieces text → IsName name :=
    fun name h => isName_of_mem_names (mem_pieces_iff.mp h)
  have hstart : fillPieces (restrict [] (valuesOf env)) (pieces text) = text := by
    refine (fillPieces_congr fun name _ => ?_).trans (fillPieces_pieces text)
    rw [restrict_of_not_mem List.not_mem_nil]
  have hend : fillPieces (restrict (order.reverse ++ []) (valuesOf env)) (pieces text) =
      fillPieces (valuesOf env) (pieces text) := by
    refine fillPieces_congr fun name h => ?_
    rw [restrict_of_mem]
    simpa using (horder name).mpr (mem_pieces_iff.mp h)
  have hfold : order.foldl (fill env) (fillPieces (restrict [] (valuesOf env)) (pieces text)) =
      fillPieces (restrict (order.reverse ++ []) (valuesOf env)) (pieces text) :=
    foldl_fill hps order fun name h =>
      ⟨isName_of_mem_names ((horder name).mp h), hsettles name ((horder name).mp h)⟩
  rwa [hstart, hend] at hfold

theorem settles_iff {env : Environment} {text : String} :
    Settles env text ↔ ∀ name ∈ names text.toList,
      fill env (fillPieces (valuesOf env) (pieces text.toList)) name =
        fillPieces (valuesOf env) (pieces text.toList) := by
  unfold Settles fillInOrder fillAtOnce
  simp only [String.toList_ofList, String.ofList_inj, List.foldl_cons, List.foldl_nil]

/-- **Filling a text in one pass.** If filling it once more would change nothing, then
    substituting fills it at once. Just then the order in which its placeholders are filled
    does not matter. -/
theorem one_pass_iff_settles (env : Environment) (text : String) :
    (Settles env text → substitute env text = fillAtOnce env text) ∧
    ((∀ order, (∀ name, name ∈ order ↔ name ∈ names text.toList) →
      fillInOrder env order text = fillAtOnce env text) ↔ Settles env text) := by
  have hsettles : Settles env text → ∀ order,
      (∀ name, name ∈ order ↔ name ∈ names text.toList) →
        fillInOrder env order text = fillAtOnce env text := by
    intro h order horder
    exact congrArg String.ofList (foldl_fill_names horder (settles_iff.mp h))
  refine ⟨fun h => hsettles h (names text.toList) fun name => Iff.rfl, ?_, hsettles⟩
  intro h name hname
  have honce : (names text.toList).foldl (fill env) text.toList =
      fillPieces (valuesOf env) (pieces text.toList) :=
    String.ofList_inj.mp (h (names text.toList) fun name => Iff.rfl)
  -- Filling the name once more is another order of the same names.
  have hagain : fillInOrder env (names text.toList ++ [name]) text = fillAtOnce env text := by
    refine h _ fun name' => ?_
    simp only [List.mem_append, List.mem_singleton, or_iff_left_iff_imp]
    rintro rfl
    exact hname
  unfold fillInOrder at hagain ⊢
  rw [List.foldl_append, honce] at hagain
  rw [fillAtOnce, String.toList_ofList]
  exact hagain

/-- A price whose parts look like a placeholder when they are put together. -/
def priced : Environment
  | "AMOUNT" => some "5$"
  | "UNIT" => some "\x7bUS\x7d"
  | "US" => some "dollars"
  | _ => none

/-- Values are taken as they are, as long as they make no placeholder of the text. -/
theorem priced_in_one_pass :
    Settles priced "costs $\x7bAMOUNT\x7d$\x7bUNIT\x7d" ∧
      substitute priced "costs $\x7bAMOUNT\x7d$\x7bUNIT\x7d" = "costs 5$\x7bUS\x7d" := by
  have hsettles : Settles priced "costs $\x7bAMOUNT\x7d$\x7bUNIT\x7d" := by
    unfold Settles
    decide
  refine ⟨hsettles, ((one_pass_iff_settles _ _).1 hsettles).trans ?_⟩
  decide

/-- A variable whose value holds the placeholder of another one. -/
def nested : Environment
  | "A" => some "$\x7bB\x7d"
  | "B" => some "x"
  | _ => none

/-- A placeholder that comes with a value is filled as well if it stands in the text behind the
    place of that value, and is not if it stands in front of it. -/
theorem nested_filled_again :
    substitute nested "$\x7bA\x7d$\x7bB\x7d" = "xx" ∧
      fillAtOnce nested "$\x7bA\x7d$\x7bB\x7d" = "$\x7bB\x7dx" ∧
      substitute nested "$\x7bB\x7d$\x7bA\x7d" = "x$\x7bB\x7d" := by
  decide

end Placeholder

end WorkflowEngine
