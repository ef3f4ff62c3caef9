import Mathlib.Algebra.Ring.Nat
import WorkflowEngine.Timestamp

/-! # Timestamps Are Read as They Are Written

    Reading is lenient, so what it accepts is not what is written. But what is
    written is accepted, and read as the same moment, and all moments that are
    read can be written.
-/

namespace WorkflowEngine

/-! ## Digits -/

namespace Numeral

variable {c : Char} {cs rest : List Char}

theorem isDigit_iff : c.isDigit = true ↔ '0' ≤ c ∧ c ≤ '9' := by
  rw [Char.isDigit_iff_toNat]
  exact Iff.rfl

theorem digit?_of_isDigit (h : c.isDigit = true) : digit? c = some (c.toNat - '0'.toNat) :=
  if_pos (isDigit_iff.mp h)

theorem digit?_of_not_isDigit (h : c.isDigit = false) : digit? c = none :=
  if_neg fun hrange => Bool.false_ne_true (h.symm.trans (isDigit_iff.mpr hrange))

theorem digit?_lt {d : Nat} (h : digit? c = some d) : d < 10 := by
  unfold digit? at h
  split at h
  · rename_i hrange
    obtain rfl := Option.some.inj h
    have hle : c.toNat ≤ '9'.toNat := hrange.2
    have h0 : '0'.toNat = 48 := rfl
    have h9 : '9'.toNat = 57 := rfl
    omega
  · cases h

/-- Whether no digit stands at the front of a text. -/
def EndsDigits (rest : List Char) : Prop := ∀ c ∈ rest.head?, c.isDigit = false

/-- Digits are read up to the first other character. -/
theorem takeDigits_append (hcs : ∀ c ∈ cs, c.isDigit = true) (hrest : EndsDigits rest) :
    takeDigits (cs ++ rest) = (cs.map fun c => c.toNat - '0'.toNat, rest) := by
  induction cs with
  | nil =>
    cases rest with
    | nil => rfl
    | cons c rest =>
      have hc := digit?_of_not_isDigit (hrest c rfl)
      simp only [List.nil_append, takeDigits, hc, List.map_nil]
  | cons c cs ih =>
    have hc := digit?_of_isDigit (hcs c List.mem_cons_self)
    have hrest' := ih fun d hd => hcs d (List.mem_cons_of_mem c hd)
    simp only [List.cons_append, takeDigits, hc, hrest', List.map_cons]

theorem takeDigits_lt (text : List Char) : ∀ d ∈ (takeDigits text).1, d < 10 := by
  induction text with
  | nil => nofun
  | cons c rest ih =>
    unfold takeDigits
    split
    · rename_i d hd
      intro d' hd'
      rcases List.mem_cons.mp hd' with rfl | hrest
      · exact digit?_lt hd
      · exact ih d' hrest
    · nofun

/-- So many digits write a number below that power of ten. -/
theorem value_lt {digits : List Nat} (h : ∀ d ∈ digits, d < 10) :
    value digits < 10 ^ digits.length := by
  -- Generalise over the number that has been read so far.
  suffices hall : ∀ n, digits.foldl (fun n d => 10 * n + d) n < (n + 1) * 10 ^ digits.length by
    have hzero := hall 0
    rwa [Nat.zero_add, Nat.one_mul] at hzero
  induction digits with
  | nil => exact fun n => by rw [List.foldl_nil, List.length_nil, Nat.pow_zero]; omega
  | cons d digits ih =>
    intro n
    have hd := h d List.mem_cons_self
    calc (d :: digits).foldl (fun n d => 10 * n + d) n
      _ < (10 * n + d + 1) * 10 ^ digits.length :=
        ih (fun d' hd' => h d' (List.mem_cons_of_mem d hd')) (10 * n + d)
      _ ≤ (n + 1) * 10 * 10 ^ digits.length := Nat.mul_le_mul_right _ (by omega)
      _ = (n + 1) * 10 ^ (d :: digits).length := by
        rw [List.length_cons, Nat.pow_succ', Nat.mul_assoc]

theorem value_map (cs : List Char) :
    value (cs.map fun c => c.toNat - '0'.toNat) = Nat.ofDigitChars 10 cs 0 := by
  unfold value Nat.ofDigitChars
  rw [List.foldl_map]

end Numeral

namespace Timestamp

variable {n width : Nat} {rest : List Char}

/-! ## Padded numbers -/

theorem toList_padded (width n : Nat) : (padded width n).toList =
    List.replicate (width - (Nat.toDigits 10 n).length) '0' ++ Nat.toDigits 10 n := by
  unfold padded
  rw [String.toList_ofList]

theorem isDigit_padded (width n : Nat) : ∀ c ∈ (padded width n).toList, c.isDigit = true := by
  intro c hc
  rw [toList_padded, List.mem_append] at hc
  rcases hc with hzero | hdigit
  · rw [List.eq_of_mem_replicate hzero]
    rfl
  · exact Nat.isDigit_of_mem_toDigits (by decide) (by decide) hdigit

/-- The digits write the number. -/
theorem value_padded (width n : Nat) : Nat.ofDigitChars 10 (padded width n).toList 0 = n := by
  rw [toList_padded, Nat.ofDigitChars_append, Nat.ofDigitChars_replicate_zero, Nat.mul_zero,
    Nat.ofDigitChars_ten_toDigits]

/-- A number that fits its width takes just this width. -/
theorem length_padded (hwidth : 0 < width) (hn : n < 10 ^ width) :
    (padded width n).toList.length = width := by
  have hle := (Nat.length_toDigits_le_iff (b := 10) (by decide) hwidth).mpr hn
  rw [toList_padded, List.length_append, List.length_replicate]
  omega

theorem padded_eq_cons (hwidth : 0 < width) (hn : n < 10 ^ width) :
    ∃ c cs, (padded width n).toList = c :: cs ∧ c.isDigit = true := by
  cases hlist : (padded width n).toList with
  | nil =>
    have hlength := length_padded hwidth hn
    rw [hlist, List.length_nil] at hlength
    omega
  | cons c cs =>
    have hmem : c ∈ (padded width n).toList := by
      rw [hlist]
      exact List.mem_cons_self
    exact ⟨c, cs, rfl, isDigit_padded width n c hmem⟩

theorem takeDigits_padded (width n : Nat) (hrest : Numeral.EndsDigits rest) :
    Numeral.takeDigits ((padded width n).toList ++ rest) =
      ((padded width n).toList.map fun c => c.toNat - '0'.toNat, rest) :=
  Numeral.takeDigits_append (isDigit_padded width n) hrest

/-! ## Parts -/

theorem isBlank_of_isDigit {c : Char} (h : c.isDigit = true) : isBlank c = false := by
  obtain ⟨h0, h9⟩ : 48 ≤ c.toNat ∧ c.toNat ≤ 57 := Char.isDigit_iff_toNat.mp h
  unfold isBlank
  simp only [Bool.or_eq_false_iff, Bool.and_eq_false_iff, decide_eq_false_iff_not,
    beq_eq_false_iff_ne]
  omega

theorem trimStart_cons {c : Char} (h : isBlank c = false) : trimStart (c :: rest) = c :: rest := by
  unfold trimStart
  rw [List.dropWhile_cons_of_neg]
  rw [h]
  exact Bool.false_ne_true

theorem trimStart_padded (hwidth : 0 < width) (hn : n < 10 ^ width) :
    trimStart ((padded width n).toList ++ rest) = (padded width n).toList ++ rest := by
  obtain ⟨c, cs, hcons, hc⟩ := padded_eq_cons hwidth hn
  rw [hcons, List.cons_append, trimStart_cons (isBlank_of_isDigit hc)]

/-- A padded number is read back, whatever follows. -/
theorem takeNumber?_padded (hwidth : 0 < width) (hn : n < 10 ^ width) (rest : List Char) :
    takeNumber? width ((padded width n).toList ++ rest) = some (n, rest) := by
  have hlength := length_padded hwidth hn
  have hempty : Numeral.EndsDigits [] := nofun
  have hdigits := takeDigits_padded width n hempty
  rw [List.append_nil] at hdigits
  simp only [takeNumber?, trimStart_padded hwidth hn, List.take_left' hlength,
    List.drop_left' hlength, hdigits]
  obtain ⟨c, cs, hcons, -⟩ := padded_eq_cons hwidth hn
  have hvalue := value_padded width n
  rw [hcons] at hvalue ⊢
  rw [← Numeral.value_map] at hvalue
  simp only [List.map_cons, List.nil_append] at hvalue ⊢
  rw [hvalue]

theorem takeNumber?_two (hn : n < 100) (rest : List Char) :
    takeNumber? 2 ((padded 2 n).toList ++ rest) = some (n, rest) :=
  takeNumber?_padded (by decide) hn rest

theorem takeChar?_cons {c : Char} (h : isBlank c = false) :
    takeChar? c (c :: rest) = some rest := by
  unfold takeChar?
  rw [trimStart_cons h]
  exact if_pos rfl

/-- Some digits are followed by a hyphen. -/
theorem endsDigits_hyphen (rest : List Char) : Numeral.EndsDigits ('-' :: rest) := by
  intro c hc
  obtain rfl := Option.some.inj hc
  rfl

/-- A padded number after a sign has any number of digits. -/
theorem takeDigits_padded_value (width n : Nat) (hrest : Numeral.EndsDigits rest) :
    ∃ d ds, Numeral.takeDigits ((padded width n).toList ++ rest) = (d :: ds, rest) ∧
      Numeral.value (d :: ds) = n := by
  have hvalue := value_padded width n
  rw [← Numeral.value_map] at hvalue
  rw [takeDigits_padded width n hrest]
  cases hlist : (padded width n).toList with
  | nil =>
    -- Even zero is written with a digit.
    have hpos := Nat.length_toDigits_pos (b := 10) (n := n)
    rw [toList_padded] at hlist
    have hnil := (List.append_eq_nil_iff.mp hlist).2
    rw [hnil, List.length_nil] at hpos
    omega
  | cons c cs =>
    rw [hlist] at hvalue
    exact ⟨_, _, rfl, hvalue⟩

/-- A year is read back up to the hyphen behind it. -/
theorem takeYear?_writeYear (year : Int) (rest : List Char) :
    takeYear? ((writeYear year).toList ++ '-' :: rest) = some (year, '-' :: rest) := by
  have hhyphen := endsDigits_hyphen rest
  have hblank : ∀ c, c = '-' ∨ c = '+' → isBlank c = false := by
    rintro c (rfl | rfl)
    · decide
    · decide
  obtain ⟨d, ds, hdigits, hvalue⟩ := takeDigits_padded_value 4 year.natAbs hhyphen
  unfold writeYear
  split
  · rename_i hneg
    have htext : ("-" ++ padded 4 year.natAbs).toList ++ '-' :: rest =
        '-' :: ((padded 4 year.natAbs).toList ++ '-' :: rest) := by
      rw [String.toList_append]
      rfl
    have habs : -(year.natAbs : Int) = year := by omega
    rw [htext, takeYear?, trimStart_cons (hblank _ (.inl rfl))]
    simp only [hdigits, hvalue, habs]
  · split
    · rename_i hneg hshort
      have hn : year.natAbs < 10 ^ 4 := by omega
      obtain ⟨c, cs, hcons, hc⟩ := padded_eq_cons (by decide) hn
      have hnumber := takeNumber?_padded (by decide) hn ('-' :: rest)
      rw [takeYear?, trimStart_padded (by decide) hn]
      rw [hcons] at hnumber ⊢
      rw [List.cons_append] at hnumber ⊢
      split
      · rename_i heq
        cases heq
        cases hc
      · rename_i heq
        cases heq
        cases hc
      · have habs : (year.natAbs : Int) = year := by omega
        simp only [hnumber, Option.map_some, habs]
    · rename_i hneg hlong
      have htext : ("+" ++ padded 4 year.natAbs).toList ++ '-' :: rest =
          '+' :: ((padded 4 year.natAbs).toList ++ '-' :: rest) := by
        rw [String.toList_append]
        rfl
      have habs : (year.natAbs : Int) = year := by omega
      rw [htext, takeYear?, trimStart_cons (hblank _ (.inr rfl))]
      simp only [hdigits, hvalue, habs]

/-- A fraction of so many digits is read back up to the `Z` behind it. -/
theorem takeNanoseconds?_padded (hwidth : 0 < width) (hnine : width ≤ 9) (hn : n < 10 ^ width)
    (rest : List Char) : takeNanoseconds? (("." ++ padded width n).toList ++ 'Z' :: rest) =
      some (n * 10 ^ (9 - width), 'Z' :: rest) := by
  have hz : Numeral.EndsDigits ('Z' :: rest) := by
    intro c hc
    obtain rfl := Option.some.inj hc
    rfl
  have htext : ("." ++ padded width n).toList ++ 'Z' :: rest =
      '.' :: ((padded width n).toList ++ 'Z' :: rest) := by
    rw [String.toList_append]
    rfl
  obtain ⟨d, ds, hdigits, hvalue⟩ := takeDigits_padded_value width n hz
  have hlength : (d :: ds).length = width := by
    have heq := takeDigits_padded width n hz
    rw [hdigits] at heq
    rw [(Prod.mk.inj heq).1, List.length_map, length_padded hwidth hn]
  have htake : (d :: ds).take 9 = d :: ds := List.take_of_length_le (by omega)
  rw [htext, takeNanoseconds?]
  simp only [hdigits, htake, hvalue, hlength]
  rfl

/-- So is the fraction of a second, in as many digits as it takes. -/
theorem takeNanoseconds?_writeFraction (hn : n < 1000000000) (rest : List Char) :
    takeNanoseconds? ((writeFraction n).toList ++ 'Z' :: rest) = some (n, 'Z' :: rest) := by
  unfold writeFraction
  split
  · rename_i hzero
    rw [hzero]
    rfl
  · split
    · have hmillis : n / 1000000 * 10 ^ (9 - 3) = n := by omega
      rw [takeNanoseconds?_padded (by decide) (by decide) (by omega), hmillis]
    · split
      · have hmicros : n / 1000 * 10 ^ (9 - 6) = n := by omega
        rw [takeNanoseconds?_padded (by decide) (by decide) (by omega), hmicros]
      · have hnanos : n * 10 ^ (9 - 9) = n := by omega
        rw [takeNanoseconds?_padded (by decide) (by decide) (by omega), hnanos]

/-! ## Moments -/

/-- The moments that there are: the date exists, the second is one of the day,
    and only the last second of a minute may be followed by a leap second. -/
structure Valid (t : Timestamp) : Prop where
  date : t.date.isValid = true
  second : t.second < 86400
  nanosecond : t.nanosecond < 2000000000
  leap : 1000000000 ≤ t.nanosecond → t.second % 60 = 59

theorem ofLocal?_zero {date : Date} {second nanosecond : Nat} (hdate : date.isValid = true)
    (hsecond : second < 86400) :
    ofLocal? date second nanosecond 0 = some ⟨date, second, nanosecond⟩ := by
  have hsub : (second : Int) - 0 = second := Int.sub_zero _
  have hneg : ¬((second : Int) < 0) := by omega
  have hday : (second : Int) < daySeconds := by
    unfold daySeconds
    omega
  have hmod : ((second : Int) % daySeconds).toNat = second := by
    unfold daySeconds
    omega
  have hoffset : (decide (-daySeconds < 0) && decide ((0 : Int) < daySeconds)) = true := by decide
  unfold ofLocal?
  simp only [hsub, if_neg hneg, if_pos hday, hdate, hmod, Bool.true_and, Bool.and_true]
  rw [if_pos hoffset]

theorem lt_hundred_of_isValid {date : Date} (h : date.isValid = true) :
    date.month < 100 ∧ date.day < 100 := by
  have hdays : Date.daysIn date.year date.month ≤ 31 := by
    unfold Date.daysIn
    split
    · split
      · decide
      · decide
    · decide
    · decide
    · decide
    · decide
    · decide
  simp only [Date.isValid, Bool.and_eq_true, decide_eq_true_eq] at h
  omega

/-- **What is written is read back.** -/
theorem ofText?_write {t : Timestamp} (h : t.Valid) : ofText? t.write = some t := by
  obtain ⟨⟨year, month, day⟩, second, nanosecond⟩ := t
  have hsecond : second < 86400 := h.second
  have hnano : nanosecond < 2000000000 := h.nanosecond
  have hleap : 1000000000 ≤ nanosecond → second % 60 = 59 := h.leap
  have hdate : (⟨year, month, day⟩ : Date).isValid = true := h.date
  obtain ⟨hmonth, hday⟩ := lt_hundred_of_isValid hdate
  generalize hl : nanosecond / 1000000000 = leap
  have hlast : second % 60 + leap < 100 := by omega
  have hfraction : nanosecond % 1000000000 < 1000000000 := Nat.mod_lt _ (by decide)
  have htext : (write ⟨⟨year, month, day⟩, second, nanosecond⟩).toList =
      (writeYear year).toList ++ '-' :: ((padded 2 month).toList ++ '-' ::
        ((padded 2 day).toList ++ 'T' :: ((padded 2 (second / 3600)).toList ++ ':' ::
          ((padded 2 (second / 60 % 60)).toList ++ ':' ::
            ((padded 2 (second % 60 + leap)).toList ++
              ((writeFraction (nanosecond % 1000000000)).toList ++ ['Z'])))))) := by
    simp [write, hl, String.toList_append]
  have hhyphen : isBlank '-' = false := by decide
  have hcolon : isBlank ':' = false := by decide
  have hmark : ∀ rest, takeMark? ('T' :: rest) = some rest := fun _ => rfl
  have hzone : takeOffset? ['Z'] = some (0, []) := by decide
  have hhour : second / 3600 < 100 := by omega
  have hminute : second / 60 % 60 < 100 := by omega
  -- The time of day is put together again, and so is the leap second.
  have htime : second / 3600 * 3600 + second / 60 % 60 * 60 + (second % 60 + leap) -
      (second % 60 + leap) / 60 = second := by
    omega
  have hrest : nanosecond % 1000000000 + (second % 60 + leap) / 60 * 1000000000 = nanosecond := by
    omega
  have hguard : ((trimStart []).isEmpty && decide (second / 3600 < 24) &&
      decide (second / 60 % 60 < 60) && decide (second % 60 + leap ≤ 60)) = true := by
    have hempty : (trimStart []).isEmpty = true := rfl
    simp only [hempty, Bool.true_and, Bool.and_eq_true, decide_eq_true_eq]
    omega
  -- One part of the text after the other.
  rw [ofText?, htext]
  refine Option.bind_eq_some_iff.mpr ⟨_, takeYear?_writeYear .., ?_⟩
  refine Option.bind_eq_some_iff.mpr ⟨_, takeChar?_cons hhyphen .., ?_⟩
  refine Option.bind_eq_some_iff.mpr ⟨_, takeNumber?_two hmonth _, ?_⟩
  refine Option.bind_eq_some_iff.mpr ⟨_, takeChar?_cons hhyphen .., ?_⟩
  refine Option.bind_eq_some_iff.mpr ⟨_, takeNumber?_two hday _, ?_⟩
  refine Option.bind_eq_some_iff.mpr ⟨_, hmark _, ?_⟩
  refine Option.bind_eq_some_iff.mpr ⟨_, takeNumber?_two hhour _, ?_⟩
  refine Option.bind_eq_some_iff.mpr ⟨_, takeChar?_cons hcolon .., ?_⟩
  refine Option.bind_eq_some_iff.mpr ⟨_, takeNumber?_two hminute _, ?_⟩
  refine Option.bind_eq_some_iff.mpr ⟨_, takeChar?_cons hcolon .., ?_⟩
  refine Option.bind_eq_some_iff.mpr ⟨_, takeNumber?_two hlast _, ?_⟩
  refine Option.bind_eq_some_iff.mpr ⟨_, takeNanoseconds?_writeFraction hfraction _, ?_⟩
  refine Option.bind_eq_some_iff.mpr ⟨_, hzone, ?_⟩
  refine Option.bind_eq_some_iff.mpr ⟨_, if_pos hguard, ?_⟩
  dsimp only
  rw [htime, hrest]
  exact ofLocal?_zero hdate hsecond

theorem takeNanoseconds?_lt {text rest : List Char} {nanosecond : Nat}
    (h : takeNanoseconds? text = some (nanosecond, rest)) : nanosecond < 1000000000 := by
  unfold takeNanoseconds? at h
  split at h
  · rename_i text
    have hdigits := Numeral.takeDigits_lt text
    split at h
    · cases h
    · rename_i digits rest' _ heq
      rw [heq] at hdigits
      obtain ⟨rfl, -⟩ := Prod.mk.inj (Option.some.inj h)
      have hvalue : Numeral.value (digits.take 9) < 10 ^ (digits.take 9).length :=
        Numeral.value_lt fun d hd => hdigits d (List.mem_of_mem_take hd)
      have hlength : (digits.take 9).length ≤ 9 := List.length_take_le 9 digits
      have hnine :
          10 ^ (digits.take 9).length * 10 ^ (9 - (digits.take 9).length) = 1000000000 := by
        rw [← Nat.pow_add, Nat.add_sub_cancel' hlength]
      calc Numeral.value (digits.take 9) * 10 ^ (9 - (digits.take 9).length)
        _ < 10 ^ (digits.take 9).length * 10 ^ (9 - (digits.take 9).length) :=
          Nat.mul_lt_mul_of_pos_right hvalue (Nat.pow_pos (by decide))
        _ = 1000000000 := hnine
  · obtain ⟨rfl, -⟩ := Prod.mk.inj (Option.some.inj h)
    decide

/-- Offsets are whole minutes. -/
theorem takeHoursAndMinutes?_mod {sign offset : Int} {text rest : List Char}
    (h : takeHoursAndMinutes? sign text = some (offset, rest)) : offset % 60 = 0 := by
  simp only [takeHoursAndMinutes?, Option.bind_eq_bind, Option.bind_eq_some_iff, Option.pure_def,
    Option.some.injEq, Prod.mk.injEq] at h
  obtain ⟨⟨hours, text'⟩, -, ⟨minutes, rest'⟩, -, rfl, -⟩ := h
  have hminutes :
      ((hours * 3600 + minutes * 60 : Nat) : Int) = 60 * (hours * 60 + minutes : Nat) := by
    omega
  rw [hminutes, Int.mul_left_comm, Int.mul_emod_right]

theorem takeOffset?_mod {offset : Int} {text rest : List Char}
    (h : takeOffset? text = some (offset, rest)) : offset % 60 = 0 := by
  simp only [takeOffset?] at h
  split at h
  · obtain ⟨rfl, -⟩ := Prod.mk.inj (Option.some.inj h)
    rfl
  · split at h
    · split at h
      · obtain ⟨rfl, -⟩ := Prod.mk.inj (Option.some.inj h)
        rfl
      · split at h
        · exact takeHoursAndMinutes?_mod h
        · split at h
          · exact takeHoursAndMinutes?_mod h
          · cases h
    · cases h

/-- Taking an offset off leads to a moment that there is. -/
theorem valid_of_ofLocal? {date : Date} {second nanosecond : Nat} {offset : Int} {t : Timestamp}
    (h : ofLocal? date second nanosecond offset = some t) (hnano : nanosecond < 2000000000)
    (hleap : 1000000000 ≤ nanosecond → second % 60 = 59) (hoffset : offset % 60 = 0) :
    t.Valid := by
  simp only [ofLocal?, Option.ite_none_right_eq_some, Bool.and_eq_true, Option.some.injEq] at h
  obtain ⟨⟨-, hdate⟩, rfl⟩ := h
  refine ⟨hdate, ?_, hnano, fun hlong => ?_⟩
  · show (((second : Int) - offset) % daySeconds).toNat < 86400
    unfold daySeconds
    omega
  · have hlast := hleap hlong
    show (((second : Int) - offset) % daySeconds).toNat % 60 = 59
    unfold daySeconds
    omega

/-- **What is read can be written.** -/
theorem valid_of_ofText? {text : String} {t : Timestamp} (h : ofText? text = some t) : t.Valid := by
  unfold ofText? at h
  obtain ⟨⟨year, _⟩, -, h⟩ := Option.bind_eq_some_iff.mp h
  obtain ⟨_, -, h⟩ := Option.bind_eq_some_iff.mp h
  obtain ⟨⟨month, _⟩, -, h⟩ := Option.bind_eq_some_iff.mp h
  obtain ⟨_, -, h⟩ := Option.bind_eq_some_iff.mp h
  obtain ⟨⟨day, _⟩, -, h⟩ := Option.bind_eq_some_iff.mp h
  obtain ⟨_, -, h⟩ := Option.bind_eq_some_iff.mp h
  obtain ⟨⟨hour, _⟩, -, h⟩ := Option.bind_eq_some_iff.mp h
  obtain ⟨_, -, h⟩ := Option.bind_eq_some_iff.mp h
  obtain ⟨⟨minute, _⟩, -, h⟩ := Option.bind_eq_some_iff.mp h
  obtain ⟨_, -, h⟩ := Option.bind_eq_some_iff.mp h
  obtain ⟨⟨second, _⟩, -, h⟩ := Option.bind_eq_some_iff.mp h
  obtain ⟨⟨nanosecond, _⟩, hnano, h⟩ := Option.bind_eq_some_iff.mp h
  obtain ⟨⟨offset, _⟩, hoffset, h⟩ := Option.bind_eq_some_iff.mp h
  obtain ⟨⟨⟩, hguard, hlocal⟩ := Option.bind_eq_some_iff.mp h
  dsimp only at hguard hlocal
  have hsecond : second ≤ 60 := by
    unfold guard at hguard
    split at hguard
    · rename_i hall
      simp only [Bool.and_eq_true, decide_eq_true_eq] at hall
      exact hall.2
    · cases hguard
  have hfraction := takeNanoseconds?_lt hnano
  refine valid_of_ofLocal? hlocal ?_ (fun hlong => ?_) (takeOffset?_mod hoffset)
  · omega
  · -- Only second number 60 adds a second's worth of nanoseconds.
    obtain rfl : second = 60 := by omega
    omega

end Timestamp

end WorkflowEngine
