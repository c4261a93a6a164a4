import Mathlib
import StoryEngine.Delay
import StoryEngine.Proofs.Decimal.Whole
/-!
# StoryEngine.Proofs.Decimal.Time

The exact value of a finite float as a rational number (`exactValue`). The questions that are answered on
the bits of a float are questions about that number: its whole part (`Binary.floor_value`), whether it
has a fraction (`Binary.isWhole_iff`), and whether it is larger than a natural number (`exceeds_iff`).

Time values as they are written (`TimeValue`), and the delays that they stand for. A text that is
no written time value is malformed, and one that is has as many milliseconds as its number read as a
float makes with its unit (`milliseconds_text`), unless these are too many for a float. A delay is cut to
whole milliseconds, is none if the time value is negative, and is out of range past the longest one
(`delays_bounded`).
-/

namespace StoryEngine

/-! ### Values that are held exactly -/

namespace Binary

variable (x : Binary)

/-- The value `m · 2^q`. -/
def value : ℚ :=
  x.m * 2 ^ x.q

theorem value_nonneg : 0 ≤ x.value := by
  unfold value
  positivity

theorem value_of_nonneg (h : 0 ≤ x.q) : x.value = (x.m * 2 ^ x.q.toNat : ℕ) := by
  have hq : x.q = (x.q.toNat : ℤ) := (Int.toNat_of_nonneg h).symm
  rw [value, hq, zpow_natCast, Int.toNat_natCast]
  push_cast
  rfl

theorem value_of_neg (h : ¬ 0 ≤ x.q) : x.value = x.m / (2 ^ (-x.q).toNat : ℕ) := by
  have hq : x.q = -((-x.q).toNat : ℤ) := by omega
  rw [value, hq, zpow_neg, zpow_natCast, neg_neg, Int.toNat_natCast, div_eq_mul_inv]
  push_cast
  rfl

/-- The magnitude without its fraction is the largest whole number that is not above it. -/
theorem floor_value : ⌊x.value⌋₊ = x.whole := by
  unfold whole
  by_cases h : 0 ≤ x.q
  · rw [if_pos h, x.value_of_nonneg h, Nat.floor_natCast]
    rfl
  · rw [if_neg h, x.value_of_neg h, Nat.floor_div_eq_div]
    rfl

theorem whole_le_value : (x.whole : ℚ) ≤ x.value := by
  rw [← floor_value]
  exact Nat.floor_le x.value_nonneg

theorem isWhole_iff : x.isWhole = true ↔ x.value = x.whole := by
  unfold isWhole whole
  by_cases h : 0 ≤ x.q
  · simp only [h, decide_true, Bool.true_or, if_true, true_iff]
    exact x.value_of_nonneg h
  · have hpos : (0 : ℚ) < (2 ^ (-x.q).toNat : ℕ) := by positivity
    simp only [h, decide_false, Bool.false_or, if_false, beq_iff_eq]
    rw [x.value_of_neg h, ← Nat.dvd_iff_mod_eq_zero]
    constructor
    · intro hdvd
      exact (Nat.cast_div hdvd hpos.ne').symm
    · intro heq
      rw [div_eq_iff hpos.ne', ← Nat.cast_mul, Nat.cast_inj] at heq
      exact ⟨_, heq.trans (Nat.mul_comm ..)⟩

/-- A natural number below the magnitude is below its whole part, or that is not all of it. -/
theorem lt_value_iff (n : Nat) :
    (n : ℚ) < x.value ↔ n < x.whole ∨ n = x.whole ∧ x.isWhole = false := by
  rw [← Bool.not_eq_true, isWhole_iff]
  constructor
  · intro hlt
    rcases Nat.lt_trichotomy n x.whole with h | h | h
    · exact .inl h
    · refine .inr ⟨h, fun hwhole => ?_⟩
      rw [hwhole, h] at hlt
      exact (lt_irrefl _ hlt).elim
    · rw [← floor_value, Nat.floor_lt x.value_nonneg] at h
      exact (lt_asymm hlt h).elim
  · rintro (h | ⟨rfl, hne⟩)
    · exact (Nat.cast_lt.mpr h).trans_le x.whole_le_value
    · exact lt_of_le_of_ne x.whole_le_value (Ne.symm hne)

end Binary

/-- The value of a finite float. -/
def exactValue (x : Float) : ℚ :=
  if isNegative x then -(magnitude x).value else (magnitude x).value

theorem exactValue_of_isNegative {x : Float} (h : isNegative x = true) : exactValue x ≤ 0 := by
  rw [exactValue, if_pos h]
  exact neg_nonpos.mpr (magnitude x).value_nonneg

theorem exceeds_iff (x : Float) (n : Nat) : exceeds x n = true ↔ (n : ℚ) < exactValue x := by
  unfold exceeds
  cases h : isNegative x with
  | true =>
      have hle : exactValue x ≤ n := (exactValue_of_isNegative h).trans (Nat.cast_nonneg n)
      simpa using hle
  | false =>
      rw [exactValue, h]
      simp [Binary.lt_value_iff]

/-- The whole milliseconds of a delay, which are none if it is negative. -/
theorem checkedDelay_eq (ms : Float) (text : String) :
    checkedDelay ms text =
      if (longestDelay : ℚ) < exactValue ms then .error (.outOfRange text)
      else .ok ⌊exactValue ms⌋₊ := by
  unfold checkedDelay
  have hwhole : (if isNegative ms then 0 else (magnitude ms).whole) = ⌊exactValue ms⌋₊ := by
    cases h : isNegative ms with
    | true => exact (Nat.floor_of_nonpos (exactValue_of_isNegative h)).symm
    | false =>
        rw [exactValue, h]
        exact (magnitude ms).floor_value.symm
  rw [hwhole]
  exact if_congr (exceeds_iff ms longestDelay) rfl rfl

/-! ### Written time values -/

/-- A time value as it is written. -/
structure TimeValue where
  sign : List Char
  /-- The digits before the point, if there is a point. -/
  whole : Option (List Char)
  /-- The digits that the number ends with. -/
  digits : List Char
  unit : List Char
  sign_mem : sign ∈ [[], ['+'], ['-']]
  isDigit_whole : ∀ cs ∈ whole, ∀ c ∈ cs, c.isDigit = true
  digits_ne_nil : digits ≠ []
  isDigit_digits : ∀ c ∈ digits, c.isDigit = true
  unit_mem : unit ∈ [['s'], ['S'], ['m', 's'], ['m', 'S'], ['M', 's'], ['M', 'S']]

namespace TimeValue

variable (t : TimeValue)

/-- The number without its sign. -/
def size : List Char :=
  match t.whole with
  | none => t.digits
  | some cs => cs ++ '.' :: t.digits

/-- The number. -/
def numeral : List Char :=
  t.sign ++ t.size

/-- The number with its unit. -/
def text : String :=
  String.ofList (t.numeral ++ t.unit)

/-- How many milliseconds the unit stands for. -/
def factor : Float :=
  if t.unit.length = 1 then 1000.0 else 1.0

/-- The number, read as a float, in milliseconds. -/
def milliseconds? : Option Float :=
  (readFloat? (String.ofList t.numeral)).map (· * t.factor)

/-- The digits before the point, all of them if there is no point. -/
def wholeDigits : List Char :=
  t.whole.getD t.digits

/-- The digits behind the point. -/
def fraction : List Char :=
  if t.whole.isSome then t.digits else []

/-- The float nearest to the number without its sign. -/
def magnitude : Float :=
  nearestFloat (t.wholeDigits ++ t.fraction) (-(t.fraction.length : Int))

theorem unitMilliseconds?_unit : unitMilliseconds? t.unit = some t.factor := by
  have hunit := t.unit_mem
  simp only [List.mem_cons, List.not_mem_nil, or_false] at hunit
  unfold factor
  rcases hunit with h | h | h | h | h | h <;> rw [h] <;> rfl

/-- A number begins with a digit or a point. -/
theorem exists_size_eq_cons : ∃ c cs, t.size = c :: cs ∧ (c.isDigit = true ∨ c = '.') := by
  unfold size
  cases hwhole : t.whole with
  | none =>
      obtain ⟨c, cs, hdigits⟩ := List.exists_cons_of_ne_nil t.digits_ne_nil
      exact ⟨c, cs, hdigits, .inl (t.isDigit_digits c (hdigits ▸ List.mem_cons_self))⟩
  | some cs =>
      cases cs with
      | nil => exact ⟨'.', t.digits, rfl, .inr rfl⟩
      | cons c cs =>
          exact ⟨c, cs ++ '.' :: t.digits, rfl, .inl (t.isDigit_whole _ hwhole c List.mem_cons_self)⟩

end TimeValue

/-! ### Reading numbers -/

/-- Digits are taken up to what is behind them. -/
theorem span_digits {digits : List Char} (h : ∀ c ∈ digits, c.isDigit = true) (rest : List Char)
    (hrest : ∀ c ∈ rest.head?, c.isDigit = false) :
    (digits ++ rest).takeWhile Char.isDigit = digits ∧
      (digits ++ rest).dropWhile Char.isDigit = rest := by
  rw [List.takeWhile_append_of_pos h, List.dropWhile_append_of_pos h]
  cases rest with
  | nil => simp
  | cons c cs =>
      have hc : c.isDigit = false := hrest c rfl
      simp [hc]

/-- A sign is taken off a text that does not begin with one. -/
theorem takeSign_append {sign cs : List Char} (hsign : sign ∈ [[], ['+'], ['-']])
    (hplus : cs.head? ≠ some '+') (hminus : cs.head? ≠ some '-') :
    takeSign (sign ++ cs) = (decide (sign = ['-']), cs) := by
  simp only [List.mem_cons, List.not_mem_nil, or_false] at hsign
  rcases hsign with rfl | rfl | rfl
  · rw [List.nil_append, takeSign]
    · rfl
    · rintro rest rfl
      exact hplus rfl
    · rintro rest rfl
      exact hminus rfl
  · rfl
  · rfl

namespace TimeValue

variable (t : TimeValue)

theorem takeSign_numeral (rest : List Char) :
    takeSign (t.sign ++ (t.size ++ rest)) = (decide (t.sign = ['-']), t.size ++ rest) := by
  obtain ⟨c, cs, hsize, hc⟩ := t.exists_size_eq_cons
  refine takeSign_append t.sign_mem ?_ ?_
  · rw [hsize]
    rintro ⟨⟩
    simp at hc
  · rw [hsize]
    rintro ⟨⟩
    simp at hc

/-- The digits at the beginning of a number with nothing but its unit behind it. -/
theorem span_size (rest : List Char) (hrest : ∀ c ∈ rest.head?, c.isDigit = false) :
    (t.size ++ rest).takeWhile Char.isDigit = t.wholeDigits ∧
      (t.size ++ rest).dropWhile Char.isDigit =
        match t.whole with
        | none => rest
        | some _ => '.' :: (t.digits ++ rest) := by
  unfold size wholeDigits
  cases hwhole : t.whole with
  | none => exact span_digits t.isDigit_digits _ hrest
  | some cs =>
      simp only [List.append_assoc, List.cons_append, Option.getD_some]
      exact span_digits (t.isDigit_whole cs hwhole) _ fun c hc => by cases hc; rfl

theorem readMagnitude?_size : readMagnitude? t.size = some t.magnitude := by
  obtain ⟨htake, hdrop⟩ := t.span_size [] nofun
  obtain ⟨hdigits, hend⟩ := span_digits t.isDigit_digits [] nofun
  rw [List.append_nil] at htake hdrop hdigits hend
  have hsome : t.digits.isEmpty = false := by simpa using t.digits_ne_nil
  unfold readMagnitude? magnitude fraction
  cases hwhole : t.whole with
  | none =>
      have hwholeDigits : t.wholeDigits = t.digits := by rw [wholeDigits, hwhole]; rfl
      rw [hwhole] at hdrop
      simp [htake, hdrop, hwholeDigits, hsome, readExponent?]
  | some cs =>
      rw [hwhole, List.append_nil] at hdrop
      simp [htake, hdrop, hdigits, hend, hsome, readExponent?]

/-- Its number is read as a float. -/
theorem readFloat?_numeral :
    readFloat? (String.ofList t.numeral) =
      some (if t.sign = ['-'] then -t.magnitude else t.magnitude) := by
  have hsign := t.takeSign_numeral []
  rw [List.append_nil, ← numeral] at hsign
  obtain ⟨c, cs, hsize, hc⟩ := t.exists_size_eq_cons
  have hlower : c.toLower = c := by
    rcases hc with hdigit | rfl
    · exact toLower_of_isDigit hdigit
    · rfl
  -- no digit and no point is the first letter of a word
  have hword (word : String) {d : Char} {ds : List Char} (hcons : word.toList = d :: ds)
      (hdigit : d.isDigit = false) (hpoint : d ≠ '.') :
      (String.ofList (t.size.map Char.toLower) == word) = false := by
    rw [beq_eq_false_iff_ne]
    rintro rfl
    rw [String.toList_ofList, hsize, List.map_cons, hlower] at hcons
    obtain ⟨rfl, -⟩ := List.cons.inj hcons
    rcases hc with h | h
    · rw [hdigit] at h
      cases h
    · exact hpoint h
  rw [readFloat?, String.toList_ofList, hsign]
  simp only [hword "inf" rfl rfl (by decide),
    hword "infinity" rfl rfl (by decide), hword "nan" rfl rfl (by decide),
    t.readMagnitude?_size]
  by_cases hnegative : t.sign = ['-'] <;> simp [hnegative]

/-- Its parts are found again. -/
theorem timeParts?_text :
    timeParts? t.text = some (decide (t.sign = ['-']), t.wholeDigits, t.fraction, t.factor) := by
  obtain ⟨u, us, hunit, hdigit, hpoint⟩ :
      ∃ u us, t.unit = u :: us ∧ u.isDigit = false ∧ u ≠ '.' := by
    have hmem := t.unit_mem
    simp only [List.mem_cons, List.not_mem_nil, or_false] at hmem
    rcases hmem with h | h | h | h | h | h <;> exact ⟨_, _, h, rfl, by decide⟩
  have hrest : ∀ c ∈ t.unit.head?, c.isDigit = false := by
    rw [hunit]
    rintro c ⟨⟩
    exact hdigit
  obtain ⟨htake, hdrop⟩ := t.span_size t.unit hrest
  obtain ⟨hdigits, hend⟩ := span_digits t.isDigit_digits _ hrest
  have hsome : t.digits.isEmpty = false := by simpa using t.digits_ne_nil
  have htext : t.text.toList = t.sign ++ (t.size ++ t.unit) := by
    rw [text, String.toList_ofList, numeral, List.append_assoc]
  unfold timeParts? fraction
  rw [htext, t.takeSign_numeral]
  cases hwhole : t.whole with
  | none =>
      have hwholeDigits : t.wholeDigits = t.digits := by rw [wholeDigits, hwhole]; rfl
      rw [hwhole] at hdrop
      simp only [htake, hdrop, hwholeDigits, hsome]
      split
      · rename_i heq
        rw [hunit] at heq
        cases heq
        exact (hpoint rfl).elim
      · simp [t.unitMilliseconds?_unit]
  | some cs =>
      rw [hwhole] at hdrop
      simp [htake, hdrop, hdigits, hend, hsome, t.unitMilliseconds?_unit]

theorem exists_milliseconds? : ∃ ms, t.milliseconds? = some ms := by
  rw [milliseconds?, t.readFloat?_numeral]
  exact ⟨_, rfl⟩

/-- It has the milliseconds that its number and its unit make, if these are finite. -/
theorem milliseconds_text {ms : Float} (h : t.milliseconds? = some ms) :
    milliseconds t.text = if isFinite ms = true then .ok ms else .error (.outOfRange t.text) := by
  have hms : ms = (if t.sign = ['-'] then -t.magnitude else t.magnitude) * t.factor := by
    rw [milliseconds?, t.readFloat?_numeral] at h
    exact (Option.some.inj h).symm
  rw [milliseconds, t.timeParts?_text, hms]
  simp only [decide_eq_true_eq]
  rfl

end TimeValue

/-! ### Texts that are no time values -/

/-- A sign that is taken off a text stood in front of what is left. -/
theorem exists_of_takeSign {cs rest : List Char} {negative : Bool}
    (h : takeSign cs = (negative, rest)) :
    ∃ sign ∈ [[], ['+'], ['-']], cs = sign ++ rest := by
  unfold takeSign at h
  split at h <;> cases h
  · exact ⟨['+'], by simp, rfl⟩
  · exact ⟨['-'], by simp, rfl⟩
  · exact ⟨[], by simp, rfl⟩

theorem mem_of_unitMilliseconds? {unit : List Char} {ms : Float}
    (h : unitMilliseconds? unit = some ms) :
    unit ∈ [['s'], ['S'], ['m', 's'], ['m', 'S'], ['M', 's'], ['M', 'S']] := by
  unfold unitMilliseconds? isSecondMark at h
  split at h
  · rw [Option.ite_none_right_eq_some] at h
    simp only [Bool.or_eq_true, beq_iff_eq] at h
    rcases h.1 with rfl | rfl <;> simp
  · rw [Option.ite_none_right_eq_some] at h
    simp only [Bool.and_eq_true, Bool.or_eq_true, beq_iff_eq] at h
    obtain ⟨⟨rfl | rfl, rfl | rfl⟩, -⟩ := h <;> simp
  · cases h

/-- A text that has the parts of a time value is one. -/
theorem exists_of_timeParts? {text : String} (h : (timeParts? text).isSome = true) :
    ∃ t : TimeValue, t.text = text := by
  rcases hsign : takeSign text.toList with ⟨negative, cs⟩
  obtain ⟨sign, hmem, htext⟩ := exists_of_takeSign hsign
  have hsplit := List.takeWhile_append_dropWhile (p := Char.isDigit) (l := cs)
  have hdigits : ∀ c ∈ cs.takeWhile Char.isDigit, c.isDigit = true :=
    fun c hc => List.mem_takeWhile_imp hc
  rw [← String.ofList_toList (s := text), htext]
  unfold timeParts? at h
  rw [hsign] at h
  dsimp only at h
  split at h
  · rename_i rest hdrop
    have hsplit' := List.takeWhile_append_dropWhile (p := Char.isDigit) (l := rest)
    split at h
    · cases h
    · rename_i hne
      rw [Option.isSome_map] at h
      obtain ⟨ms, hunit⟩ := Option.isSome_iff_exists.mp h
      refine ⟨⟨sign, some (cs.takeWhile Char.isDigit), rest.takeWhile Char.isDigit,
        rest.dropWhile Char.isDigit, hmem, ?_, ?_, fun c hc => List.mem_takeWhile_imp hc,
        mem_of_unitMilliseconds? hunit⟩, ?_⟩
      · rintro _ ⟨⟩
        exact hdigits
      · simpa using hne
      · rw [hdrop] at hsplit
        simp only [TimeValue.text, TimeValue.numeral, TimeValue.size, List.append_assoc,
          List.cons_append, hsplit', hsplit]
  · split at h
    · cases h
    · rename_i hne
      rw [Option.isSome_map] at h
      obtain ⟨ms, hunit⟩ := Option.isSome_iff_exists.mp h
      refine ⟨⟨sign, none, cs.takeWhile Char.isDigit, cs.dropWhile Char.isDigit, hmem, nofun, ?_,
        hdigits, mem_of_unitMilliseconds? hunit⟩, ?_⟩
      · simpa using hne
      · simp only [TimeValue.text, TimeValue.numeral, TimeValue.size, List.append_assoc, hsplit]

/-- Only what is no time value is malformed. -/
theorem milliseconds_of_not_timeValue {text : String} (h : ¬ ∃ t : TimeValue, t.text = text) :
    milliseconds text = .error (.malformed text) := by
  have hparts : timeParts? text = none := by
    rw [← Option.not_isSome_iff_eq_none]
    exact fun hsome => h (exists_of_timeParts? hsome)
  rw [milliseconds, hparts]

/-! ### Delays -/

/-- A failure of the time value is one of the delay. -/
theorem delayOf_of_error {text : String} {error : TimeError} (h : milliseconds text = .error error)
    (floor : Nat) : delayOf text floor = .error error := by
  rw [delayOf, h]
  rfl

/-- A delay is the whole milliseconds of the time value, but not less than the floor. -/
theorem delayOf_of_ok {text : String} {ms : Float} (h : milliseconds text = .ok ms) (floor : Nat) :
    delayOf text floor =
      if (longestDelay : ℚ) < exactValue ms then .error (.outOfRange text)
      else .ok (max ⌊exactValue ms⌋₊ floor) := by
  rw [delayOf, h]
  change (checkedDelay ms text >>= fun delay => .ok (max delay floor)) = _
  rw [checkedDelay_eq]
  split <;> rfl

/-- A text is malformed exactly if it is no written time value, and out of range exactly if it is one
whose milliseconds are too many for a float. A delay lies between the floor and the longest delay,
unless the floor is above that; it is the floor for a time value of less than one millisecond or a
negative one, and past the longest delay it is out of range. -/
theorem delays_bounded (text : String) :
    (milliseconds text = .error (.malformed text) ↔ ¬ ∃ t : TimeValue, t.text = text) ∧
    (milliseconds text = .error (.outOfRange text) ↔
      ∃ t : TimeValue, t.text = text ∧ ∃ ms, t.milliseconds? = some ms ∧ isFinite ms = false) ∧
    (∀ ms, milliseconds text = .ok ms ↔
      ∃ t : TimeValue, t.text = text ∧ t.milliseconds? = some ms ∧ isFinite ms = true) ∧
    (∀ floor, (∀ error, milliseconds text = .error error → delayOf text floor = .error error) ∧
      (∀ d, delayOf text floor = .ok d → floor ≤ d ∧ d ≤ max floor longestDelay) ∧
      ∀ ms, milliseconds text = .ok ms →
        (exactValue ms < 1 → delayOf text floor = .ok floor) ∧
        (exactValue ms ≤ longestDelay → delayOf text floor = .ok (max ⌊exactValue ms⌋₊ floor)) ∧
        (longestDelay < exactValue ms → delayOf text floor = .error (.outOfRange text))) := by
  have hwritten {t : TimeValue} (ht : t.text = text) {ms : Float} (hms : t.milliseconds? = some ms) :
      milliseconds text = if isFinite ms = true then .ok ms else .error (.outOfRange text) := by
    rw [← ht]
    exact t.milliseconds_text hms
  refine ⟨⟨?_, milliseconds_of_not_timeValue⟩, ⟨fun h => ?_, ?_⟩, fun ms => ⟨fun h => ?_, ?_⟩,
    fun floor => ⟨fun error h => delayOf_of_error h floor, fun d hd => ?_, fun ms hms => ?_⟩⟩
  · rintro h ⟨t, ht⟩
    obtain ⟨ms, hms⟩ := t.exists_milliseconds?
    rw [hwritten ht hms] at h
    split at h <;> cases h
  · by_cases htext : ∃ t : TimeValue, t.text = text
    · obtain ⟨t, ht⟩ := htext
      obtain ⟨ms, hms⟩ := t.exists_milliseconds?
      rw [hwritten ht hms] at h
      split at h
      · cases h
      · rename_i hfinite
        exact ⟨t, ht, ms, hms, Bool.eq_false_of_not_eq_true hfinite⟩
    · rw [milliseconds_of_not_timeValue htext] at h
      cases h
  · rintro ⟨t, ht, ms, hms, hfinite⟩
    rw [hwritten ht hms, if_neg (ne_true_of_eq_false hfinite)]
  · by_cases htext : ∃ t : TimeValue, t.text = text
    · obtain ⟨t, ht⟩ := htext
      obtain ⟨ms', hms⟩ := t.exists_milliseconds?
      rw [hwritten ht hms] at h
      split at h
      · rename_i hfinite
        cases h
        exact ⟨t, ht, hms, hfinite⟩
      · cases h
    · rw [milliseconds_of_not_timeValue htext] at h
      cases h
  · rintro ⟨t, ht, hms, hfinite⟩
    rw [hwritten ht hms, if_pos hfinite]
  · cases hms : milliseconds text with
    | error error =>
        rw [delayOf_of_error hms] at hd
        cases hd
    | ok ms =>
        rw [delayOf_of_ok hms] at hd
        split at hd
        · cases hd
        · rename_i hlong
          cases hd
          have hfloor : ⌊exactValue ms⌋₊ ≤ longestDelay := Nat.floor_le_of_le (not_lt.mp hlong)
          exact ⟨Nat.le_max_right .., max_le (hfloor.trans (Nat.le_max_right ..)) (Nat.le_max_left ..)⟩
  · have hshort (h : exactValue ms ≤ longestDelay) :
        delayOf text floor = .ok (max ⌊exactValue ms⌋₊ floor) := by
      rw [delayOf_of_ok hms, if_neg (not_lt.mpr h)]
    refine ⟨fun h => ?_, hshort, fun h => ?_⟩
    · have hlongest : (1 : ℚ) ≤ longestDelay := by exact_mod_cast (by decide : 1 ≤ longestDelay)
      rw [hshort (h.le.trans hlongest), Nat.floor_eq_zero.mpr h, Nat.zero_max]
    · rw [delayOf_of_ok hms, if_pos h]

/-- Two seconds before now are the floor, a second and a half lie above it, and three million seconds
are too many for a timer. A digit that is not one of the ten of ASCII is in no time value. -/
theorem delays_bounded_seconds :
    (∃ ms, milliseconds "-2s" = .ok ms ∧ exactValue ms < 1 ∧ delayOf "-2s" 40 = .ok 40) ∧
    (delayOf "1.5s" 40 = .ok 1500 ∧ 40 ≤ 1500 ∧ 1500 ≤ max 40 longestDelay) ∧
    (∃ ms, milliseconds "3000000s" = .ok ms ∧ longestDelay < exactValue ms ∧
      delayOf "3000000s" 40 = .error (.outOfRange "3000000s")) ∧
    milliseconds "\u0663s" = .error (.malformed "\u0663s") ∧ ¬ ∃ t : TimeValue, t.text = "\u0663s" := by
  have hsign {text : String} {test : Float → Bool}
      (h : (match milliseconds text with
        | .ok ms => test ms
        | .error _ => false) = true) : ∃ ms, milliseconds text = .ok ms ∧ test ms = true := by
    split at h
    · rename_i ms heq
      exact ⟨ms, heq, h⟩
    · cases h
  refine ⟨?_, ?_, ?_, ?_⟩
  · obtain ⟨ms, hms, hnegative⟩ := @hsign "-2s" isNegative (by decide +kernel)
    have hless : exactValue ms < 1 := (exactValue_of_isNegative hnegative).trans_lt one_pos
    exact ⟨ms, hms, hless, (((delays_bounded "-2s").2.2.2 40).2.2 ms hms).1 hless⟩
  · have hdelay : delayOf "1.5s" 40 = .ok 1500 := by decide +kernel
    exact ⟨hdelay, ((delays_bounded "1.5s").2.2.2 40).2.1 1500 hdelay⟩
  · obtain ⟨ms, hms, hexceeds⟩ :=
      @hsign "3000000s" (exceeds · longestDelay) (by decide +kernel)
    have hlong : (longestDelay : ℚ) < exactValue ms := (exceeds_iff ms longestDelay).mp hexceeds
    exact ⟨ms, hms, hlong, (((delays_bounded "3000000s").2.2.2 40).2.2 ms hms).2.2 hlong⟩
  · have hparts : timeParts? "\u0663s" = none := Option.isNone_iff_eq_none.mp (by decide +kernel)
    have hmalformed : milliseconds "\u0663s" = .error (.malformed "\u0663s") := by
      rw [milliseconds, hparts]
    exact ⟨hmalformed, (delays_bounded "\u0663s").1.mp hmalformed⟩

end StoryEngine
