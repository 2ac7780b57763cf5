import FactNet.Json.Reader
import FactNet.Json.Writer
import FactNet.Proofs.Decimal.Shortest
import FactNet.Proofs.Rounding.Bits
import FactNet.Proofs.Text.Numerals

/-!
# Numbers that are written and read

The shortest decimal of a double is written out in full or with an exponent.  However it is written,
the text is a decimal of the same value, and so it is read as the double that it was made from.  A
whole number is written with its digits and read as it was, unless it has too many of them.

## Main definitions

* `IsDecimalText` — a text is a decimal with a point, or one with an exponent.
* `Spells` — a text is read as a number, whatever comes after it.

## Main results

* `exists_isDecimalText_write` — **what is written is a decimal of the same value.**
* `IsDecimalText.readMagnitude?` — a decimal is read as the double nearest to it.
* `spells_shortestText` — **the shortest decimal of a double is read as the double.**
* `spells_toString` — a whole number is read as it was written.
-/

namespace FactNet.Json

open FactNet.Decimal FactNet.Text

/-! ### Digits -/

/-- A text does not go on with a digit. -/
def EndsDigits (rest : List Char) : Prop := ∀ c ∈ rest.head?, c.isDigit = false

/-- A text does not go on with anything that belongs to a number. -/
structure EndsNumber (rest : List Char) : Prop where
  digit : EndsDigits rest
  point : rest.head? ≠ some '.'
  mark : rest.head? ≠ some 'e' ∧ rest.head? ≠ some 'E'

theorem endsDigits_cons {c : Char} {rest : List Char} (h : c.isDigit = false) :
    EndsDigits (c :: rest) := by
  intro d hd
  obtain rfl := Option.some.inj hd
  exact h

/-- **Digits are read up to something that is no digit.** -/
theorem digits?_append {ds rest : List Char} (h : IsNumeral ds) (hrest : EndsDigits rest) :
    digits? (ds ++ rest) = some (ds, rest) := by
  have htake : (ds ++ rest).takeWhile Char.isDigit = ds := by
    rw [List.takeWhile_append_of_pos h.isDigit]
    cases rest with
    | nil => simp
    | cons c rest => rw [List.takeWhile_cons_of_neg (by simp [hrest c rfl]), List.append_nil]
  have hdrop : (ds ++ rest).dropWhile Char.isDigit = rest := by
    rw [List.dropWhile_append_of_pos h.isDigit]
    cases rest with
    | nil => rfl
    | cons c rest => rw [List.dropWhile_cons_of_neg (by simp [hrest c rfl])]
  unfold digits?
  rw [htake, hdrop]
  cases ds with
  | nil => exact absurd rfl h.ne_nil
  | cons c ds => rfl

/-! ### Decimals -/

/-- The sign of an exponent. -/
def exponentSign (negative : Bool) : Char := if negative then '-' else '+'

/-- A point and the places after it, if there are any. -/
def pointed (places : List Char) : List Char := if places.isEmpty then [] else '.' :: places

/-- A text is a decimal with a point, or one with an exponent. -/
inductive IsDecimalText : List Char → Significand → Prop
  | plain {whole places : List Char} (hwhole : IsNumeral whole)
      (hlead : whole.head? = some '0' → whole.length = 1) (hplaces : IsNumeral places) :
      IsDecimalText (whole ++ '.' :: places) ⟨naturalOf (whole ++ places), -places.length⟩
  | scientific {first : Char} {places ds : List Char} (hfirst : first.isDigit = true)
      (hplaces : ∀ c ∈ places, c.isDigit = true) (hds : IsNumeral ds) (negative : Bool) :
      IsDecimalText (first :: (pointed places ++ 'e' :: exponentSign negative :: ds))
        ⟨naturalOf (first :: places),
          (if negative then -(naturalOf ds : ℤ) else naturalOf ds) - places.length⟩

theorem dropPrefix?_of_ne {p c : Char} {ps cs : List Char} (h : p ≠ c) :
    dropPrefix? (p :: ps) (c :: cs) = none := by
  rw [dropPrefix?, if_neg h]

theorem dropPrefix?_of_isDigit {p c : Char} {ps cs : List Char} (hc : c.isDigit = true)
    (hp : p.isDigit = false) : dropPrefix? (p :: ps) (c :: cs) = none :=
  dropPrefix?_of_ne fun h => by simp [h, hc] at hp

theorem readExponent?_of_endsNumber {rest : List Char} (h : EndsNumber rest) :
    readExponent? rest = some (none, rest) := by
  obtain ⟨-, -, he, hE⟩ := h
  cases rest with
  | nil => rfl
  | cons c rest =>
    rw [List.head?_cons, ne_eq, Option.some.injEq] at he hE
    rw [readExponent?, if_neg (by simp [he, hE])]

theorem readExponent?_exponentSign {ds rest : List Char} (hds : IsNumeral ds)
    (hrest : EndsDigits rest) (negative : Bool) :
    readExponent? ('e' :: exponentSign negative :: (ds ++ rest)) =
      some (some (if negative then -(naturalOf ds : ℤ) else naturalOf ds), rest) := by
  have hsign : takeSign (exponentSign negative :: (ds ++ rest)) = (negative, ds ++ rest) := by
    cases negative <;> rfl
  rw [readExponent?, if_pos (by decide), hsign]
  dsimp only
  rw [digits?_append hds hrest]
  rfl

theorem readPlaces?_pointed {places : List Char} (h : ∀ c ∈ places, c.isDigit = true)
    (rest : List Char) : readPlaces? (pointed places ++ 'e' :: rest) = some (places, 'e' :: rest) := by
  cases places with
  | nil => rfl
  | cons c places =>
    exact digits?_append ⟨List.cons_ne_nil c places, h⟩ (endsDigits_cons (by decide))

theorem endsDigits_pointed (places rest : List Char) :
    EndsDigits (pointed places ++ 'e' :: rest) := by
  cases places <;> exact endsDigits_cons (by decide)

variable {cs rest : List Char} {s : Significand}

/-- A decimal begins with a digit. -/
theorem IsDecimalText.exists_cons (h : IsDecimalText cs s) :
    ∃ c tail, c.isDigit = true ∧ cs = c :: tail := by
  cases h with
  | plain hwhole =>
    obtain ⟨c, tail, rfl⟩ := List.exists_cons_of_ne_nil hwhole.ne_nil
    exact ⟨c, _, hwhole.isDigit c List.mem_cons_self, rfl⟩
  | scientific hfirst => exact ⟨_, _, hfirst, rfl⟩

/-- **A decimal is read as the double nearest to it.** -/
theorem IsDecimalText.readMagnitude? (h : IsDecimalText cs s) (hrest : EndsNumber rest)
    (negative : Bool) : Json.readMagnitude? negative (cs ++ rest) =
      some (.number (if negative then -s.toFloat else s.toFloat), rest) := by
  obtain ⟨c, tail, hc, hcs⟩ := h.exists_cons
  -- a digit comes first, so the text is no word
  have hword : dropPrefix? ['I', 'n', 'f', 'i', 'n', 'i', 't', 'y'] (cs ++ rest) = none := by
    rw [hcs, List.cons_append]
    exact dropPrefix?_of_isDigit hc (by decide)
  unfold Json.readMagnitude?
  rw [hword]
  dsimp only
  cases h with
  | @plain whole places hwhole hlead hplaces =>
    have hlead' : ¬(whole.head? == some '0' && whole.length != 1) = true := by
      simpa using hlead
    rw [List.append_assoc, List.cons_append, digits?_append hwhole (endsDigits_cons (by decide))]
    dsimp only
    rw [if_neg hlead', readPlaces?, digits?_append hplaces hrest.digit]
    dsimp only
    rw [readExponent?_of_endsNumber hrest]
    dsimp only
    rw [if_neg (by simpa using hplaces.ne_nil)]
  | @scientific first places ds hfirst hplaces hds negative' =>
    have hwhole : IsNumeral [first] := ⟨List.cons_ne_nil first [], by simpa using hfirst⟩
    have htext : first :: (pointed places ++ 'e' :: exponentSign negative' :: ds) ++ rest =
        [first] ++ (pointed places ++ 'e' :: exponentSign negative' :: (ds ++ rest)) := by simp
    rw [htext, digits?_append hwhole (endsDigits_pointed _ _)]
    dsimp only
    rw [if_neg (by simp), readPlaces?_pointed hplaces]
    dsimp only
    rw [readExponent?_exponentSign hds hrest.digit]
    rfl

/-! ### Written decimals -/

section Write

variable {d : Significand} {ds : List Char}

/-- The digits of a decimal, of which a zero comes first only if it is the only one. -/
structure IsDigitsOf (ds : List Char) (n : Nat) : Prop where
  isNumeral : IsNumeral ds
  naturalOf : Text.naturalOf ds = n
  lead : ds.head? = some '0' → ds = ['0']

theorem isDigitsOf_toDigits (n : Nat) : IsDigitsOf (Nat.toDigits 10 n) n := by
  refine ⟨isNumeral_toDigits n, naturalOf_toDigits n, fun h => ?_⟩
  obtain rfl : n = 0 := by
    by_contra hn
    exact head?_toDigits_ne hn h
  rfl

theorem value_of_eq {n : Nat} {e : ℤ} (hn : n = d.digits) (he : e = d.exponent) :
    Significand.value ⟨n, e⟩ = d.value := by
  rw [hn, he]

/-- A decimal below one. -/
theorem exists_isDecimalText_below (h : IsDigitsOf ds d.digits)
    (he : d.exponent + ds.length - 1 < 0) :
    ∃ s, IsDecimalText ('0' :: '.' ::
      (List.replicate (-(d.exponent + ds.length - 1) - 1).toNat '0' ++ ds)) s ∧
        s.value = d.value := by
  refine ⟨_, .plain isNumeral_zero (fun _ => rfl) (h.isNumeral.replicate_append _),
    value_of_eq ?_ ?_⟩
  · rw [naturalOf_append, naturalOf_zero, Nat.zero_mul, Nat.zero_add, naturalOf_replicate_append,
      h.naturalOf]
  · rw [List.length_append, List.length_replicate]
    omega

/-- A decimal that is a whole number. -/
theorem exists_isDecimalText_whole (h : IsDigitsOf ds d.digits) {n : Nat} (he : d.exponent = n)
    (hzero : d.digits = 0 → n = 0) :
    ∃ s, IsDecimalText (ds ++ List.replicate n '0' ++ ['.', '0']) s ∧ s.value = d.value := by
  have hwhole : IsNumeral (ds ++ List.replicate n '0') :=
    h.isNumeral.append fun _ => isDigit_of_mem_replicate_zero
  refine ⟨_, .plain hwhole (fun hhead => ?_) isNumeral_zero, ?_⟩
  · -- only zero begins with a zero, and then no zeros follow it
    rw [List.head?_append_of_ne_nil _ h.isNumeral.ne_nil] at hhead
    have hds := h.lead hhead
    rw [hzero (by rw [← h.naturalOf, hds, naturalOf_zero]), hds]
    rfl
  · rw [naturalOf_append, naturalOf_append, naturalOf_replicate_zero, naturalOf_zero, h.naturalOf,
      Significand.value, Significand.value, he, List.length_replicate, List.length_singleton]
    have hten : (10 : ℚ) * 10 ^ (-1 : ℤ) = 1 := by norm_num
    push_cast
    rw [zpow_natCast]
    linear_combination (d.digits : ℚ) * 10 ^ n * hten

/-- A decimal with a point among its digits. -/
theorem exists_isDecimalText_between (h : IsDigitsOf ds d.digits) {n : Nat} (hn : 0 < n)
    (hlt : n < ds.length) (he : d.exponent = n - ds.length) :
    ∃ s, IsDecimalText (ds.take n ++ '.' :: ds.drop n) s ∧ s.value = d.value := by
  have hwhole : IsNumeral (ds.take n) := by
    refine ⟨?_, fun c hc => h.isNumeral.isDigit c (List.mem_of_mem_take hc)⟩
    rw [ne_eq, List.take_eq_nil_iff]
    exact not_or.2 ⟨hn.ne', h.isNumeral.ne_nil⟩
  have hplaces : IsNumeral (ds.drop n) := by
    refine ⟨?_, fun c hc => h.isNumeral.isDigit c (List.mem_of_mem_drop hc)⟩
    rw [ne_eq, List.drop_eq_nil_iff]
    omega
  refine ⟨_, .plain hwhole (fun hhead => ?_) hplaces, value_of_eq ?_ ?_⟩
  · rw [List.head?_take, if_neg hn.ne'] at hhead
    rw [h.lead hhead] at hlt
    exact absurd hlt (by simpa using hn.ne')
  · rw [List.take_append_drop, h.naturalOf]
  · rw [List.length_drop]
    omega

/-- A decimal with an exponent. -/
theorem exists_isDecimalText_scientific {first : Char} {places : List Char}
    (h : IsDigitsOf (first :: places) d.digits) {e : ℤ} (he : d.exponent = e - places.length) :
    ∃ s, IsDecimalText (first :: (pointed places ++ (exponentText 2 e).toList)) s ∧
      s.value = d.value := by
  obtain ⟨zeros, hzeros⟩ : ∃ zeros, (exponentText 2 e).toList =
      'e' :: exponentSign (e < 0) :: (List.replicate zeros '0' ++ Nat.toDigits 10 e.natAbs) := by
    refine ⟨2 - (toString e.natAbs).length, ?_⟩
    rw [exponentText, padded, String.toList_append, String.toList_append, String.toList_ofList,
      Nat.toString_eq_repr, Nat.toList_repr]
    by_cases hneg : e < 0
    · rw [if_pos hneg, decide_eq_true hneg]
      rfl
    · rw [if_neg hneg, decide_eq_false hneg]
      rfl
  rw [hzeros]
  refine ⟨_, .scientific (h.isNumeral.isDigit first List.mem_cons_self)
    (fun c hc => h.isNumeral.isDigit c (List.mem_cons_of_mem first hc))
    ((isNumeral_toDigits _).replicate_append zeros) _, value_of_eq h.naturalOf ?_⟩
  rw [naturalOf_replicate_append, naturalOf_toDigits, he]
  by_cases hneg : e < 0
  · rw [if_pos (by simpa using hneg)]
    omega
  · rw [if_neg (by simpa using hneg)]
    omega

/-- **What is written is a decimal of the same value.** -/
theorem exists_isDecimalText_write (hzero : d.digits = 0 → d.exponent = 0) :
    ∃ s, IsDecimalText (plain.write d).toList s ∧ s.value = d.value := by
  have hds : (toString d.digits).toList = Nat.toDigits 10 d.digits := by
    rw [Nat.toString_eq_repr, Nat.toList_repr]
  have h := isDigitsOf_toDigits d.digits
  obtain ⟨text, htext⟩ : ∃ text, plain.write d = text := ⟨_, rfl⟩
  rw [htext]
  unfold Layout.write at htext
  rw [hds] at htext
  generalize Nat.toDigits 10 d.digits = ds at h htext
  have hlength : 0 < ds.length := List.length_pos_iff.2 h.isNumeral.ne_nil
  dsimp only at htext
  -- the layout is chosen by the exponent of the first digit
  by_cases hplain : (decide (plain.leastPlain ≤ d.exponent + (ds.length : ℤ) - 1) &&
      decide (d.exponent + (ds.length : ℤ) - 1 < plain.firstScientific)) = true
  · rw [if_pos hplain] at htext
    by_cases he : d.exponent + (ds.length : ℤ) - 1 < 0
    · rw [if_pos he] at htext
      rw [← htext, String.toList_append, String.toList_ofList (l := _ ++ ds)]
      exact exists_isDecimalText_below h he
    · rw [if_neg he] at htext
      by_cases hle : ds.length ≤ (d.exponent + (ds.length : ℤ) - 1).toNat + 1
      · rw [if_pos hle] at htext
        rw [← htext, String.toList_append, String.toList_ofList]
        exact exists_isDecimalText_whole h (by omega) fun h => by omega
      · rw [if_neg hle] at htext
        rw [← htext, String.toList_ofList]
        exact exists_isDecimalText_between h (by omega) (by omega) (by omega)
  · rw [if_neg hplain] at htext
    cases ds with
    | nil => exact absurd rfl h.isNumeral.ne_nil
    | cons first places =>
      have hsame : text.toList = first :: (pointed places ++
          (exponentText 2 (d.exponent + (first :: places).length - 1)).toList) := by
        cases places with
        | nil => rw [← htext, String.toList_append, String.toList_ofList]; rfl
        | cons c places => rw [← htext, String.toList_append, String.toList_ofList]; rfl
      rw [hsame]
      refine exists_isDecimalText_scientific h ?_
      rw [List.length_cons]
      omega

end Write

/-! ### Doubles -/

/-- **A decimal of the value of the shortest one is read as the double.** -/
theorem exists_parts {x : Float} (hx : x.isFinite = true) :
    ∃ negative m q, Parts.ofFloat x = ⟨negative, .finite m q⟩ ∧
      ((shortest m q).digits = 0 → (shortest m q).exponent = 0) ∧
      ∀ s : Significand, s.value = (shortest m q).value →
        (if negative then -s.toFloat else s.toFloat) = x := by
  rcases Double.isZero_or_isFinite hx with ⟨sign, hzero⟩ | ⟨sign, m, q, hm, h⟩
  · refine ⟨_, _, _, hzero.parts, fun _ => rfl, fun s hs => ?_⟩
    -- only the digit zero has the value zero
    have hdigits : s.digits = 0 := by
      have hvalue : Significand.value (shortest 0 (-1074)) = 0 := by
        simp [shortest, Significand.value]
      rw [hvalue, Significand.value] at hs
      exact_mod_cast (mul_eq_zero.1 hs).resolve_right (zpow_ne_zero _ (by norm_num))
    have hread : s.toFloat = 0.0 := by
      rw [Significand.toFloat, hdigits]
      rfl
    rw [hread, hzero.eq]
    cases sign <;> rfl
  · refine ⟨_, _, _, h.parts, fun hdigits => ?_, fun s hs => ?_⟩
    · have hpos := (near_shortest h.canonical h.le).pos hm
      rw [Significand.value, hdigits, Nat.cast_zero, zero_mul] at hpos
      exact absurd hpos (lt_irrefl _)
    · have hread : s.toFloat = .ofModel (.pack (.finite .positive m q hm)) :=
        Significand.toFloat_eq h.canonical h.le (hs ▸ near_shortest h.canonical h.le)
      rw [hread, h.eq]
      cases sign with
      | positive => rfl
      | negative => exact Double.neg_ofModel_pack h.canonical h.le

/-! ### Texts of numbers -/

/-- A text begins as a number does, and is read as a value whatever comes after the number. -/
structure Spells (cs : List Char) (v : Json) : Prop where
  start : ∃ c tail, cs = c :: tail ∧ (c.isDigit = true ∨ c = '-')
  read : ∀ rest, EndsNumber rest → readNumber? (cs ++ rest) = some (v, rest)

section Spells

variable {v : Json}

/-- A number that begins with a digit has no sign and is no word. -/
theorem spells_of_isDigit {c : Char} {tail : List Char} (hc : c.isDigit = true)
    (h : ∀ rest, EndsNumber rest → readMagnitude? false (c :: tail ++ rest) = some (v, rest)) :
    Spells (c :: tail) v := by
  refine ⟨⟨c, tail, rfl, .inl hc⟩, fun rest hrest => ?_⟩
  have hsign : c ≠ '-' := by
    rintro rfl
    exact absurd hc (by decide)
  rw [List.cons_append, readNumber?.eq_def]
  split
  · next heq =>
    rw [List.cons.injEq] at heq
    exact absurd heq.1 hsign
  · rw [dropPrefix?_of_isDigit hc (by decide)]
    exact h rest hrest

theorem spells_of_minus
    (h : ∀ rest, EndsNumber rest → readMagnitude? true (cs ++ rest) = some (v, rest)) :
    Spells ('-' :: cs) v :=
  ⟨⟨'-', cs, rfl, .inr rfl⟩, h⟩

/-- **The shortest decimal of a double is read as the double.** -/
theorem spells_shortestText {x : Float} (hx : x.isFinite = true) :
    Spells (shortestText x).toList (.number x) := by
  obtain ⟨negative, m, q, hparts, hzero, hread⟩ := exists_parts hx
  obtain ⟨s, htext, hvalue⟩ := exists_isDecimalText_write hzero
  have hmagnitude : ∀ rest, EndsNumber rest →
      readMagnitude? negative ((plain.write (shortest m q)).toList ++ rest) =
        some (.number x, rest) := by
    intro rest hrest
    rw [htext.readMagnitude? hrest, hread s hvalue]
  rw [shortestText, Layout.text, hparts]
  dsimp only
  rw [String.toList_append]
  cases negative with
  | false =>
    obtain ⟨c, tail, hc, hcs⟩ := htext.exists_cons
    rw [hcs] at hmagnitude ⊢
    exact spells_of_isDigit hc hmagnitude
  | true =>
    rw [if_pos rfl]
    exact spells_of_minus hmagnitude

/-- Digits are read as a whole number, unless there are too many. -/
theorem readMagnitude?_toDigits {n : Nat} (hn : n < 10 ^ mostDigits) (negative : Bool)
    (hrest : EndsNumber rest) : readMagnitude? negative (Nat.toDigits 10 n ++ rest) =
      some (.int (if negative then -(n : ℤ) else n), rest) := by
  have h := isDigitsOf_toDigits n
  have hlength : (Nat.toDigits 10 n).length ≤ mostDigits :=
    (Nat.length_toDigits_le_iff (by decide) (by decide)).2 hn
  obtain ⟨c, tail, hcs⟩ := List.exists_cons_of_ne_nil h.isNumeral.ne_nil
  have hc : c.isDigit = true := h.isNumeral.isDigit c (by simp [hcs])
  -- there is no word, no leading zero, no place after a point and no exponent
  have hword : dropPrefix? ['I', 'n', 'f', 'i', 'n', 'i', 't', 'y'] (Nat.toDigits 10 n ++ rest) =
      none := by
    rw [hcs, List.cons_append]
    exact dropPrefix?_of_isDigit hc (by decide)
  have hlead : ¬((Nat.toDigits 10 n).head? == some '0' && (Nat.toDigits 10 n).length != 1) =
      true := by
    rw [Bool.and_eq_true, beq_iff_eq, bne_iff_ne]
    rintro ⟨hhead, hone⟩
    exact hone (by rw [h.lead hhead]; rfl)
  have hplaces : readPlaces? rest = some ([], rest) := by
    cases rest with
    | nil => rfl
    | cons c rest =>
      have hpoint : c ≠ '.' := fun heq => hrest.point (by rw [heq]; rfl)
      rw [readPlaces?.eq_def]
      split
      · next heq =>
        rw [List.cons.injEq] at heq
        exact absurd heq.1 hpoint
      · rfl
  unfold readMagnitude?
  rw [hword]
  dsimp only
  rw [digits?_append h.isNumeral hrest.digit]
  dsimp only
  rw [if_neg hlead, hplaces]
  dsimp only
  rw [readExponent?_of_endsNumber hrest]
  dsimp only
  rw [if_pos List.isEmpty_nil, if_pos hlength, h.naturalOf]

/-- **A whole number is read as it was written, unless it has too many digits.** -/
theorem spells_toString {n : ℤ} (hn : n.natAbs < 10 ^ mostDigits) :
    Spells (toString n).toList (.int n) := by
  cases n with
  | ofNat n =>
    have htext : (toString (Int.ofNat n)).toList = Nat.toDigits 10 n :=
      (congrArg String.toList Nat.toString_eq_repr).trans Nat.toList_repr
    have hread : ∀ rest, EndsNumber rest →
        readMagnitude? false (Nat.toDigits 10 n ++ rest) = some (.int (Int.ofNat n), rest) :=
      fun rest => readMagnitude?_toDigits hn false
    have hds := isNumeral_toDigits n
    rw [htext]
    obtain ⟨c, tail, hcs⟩ := List.exists_cons_of_ne_nil hds.ne_nil
    rw [hcs] at hread hds ⊢
    exact spells_of_isDigit (hds.isDigit c List.mem_cons_self) hread
  | negSucc n =>
    have htext : (toString (Int.negSucc n)).toList = '-' :: Nat.toDigits 10 (n + 1) := by
      show ("-" ++ (n + 1).repr).toList = _
      rw [String.toList_append, Nat.toList_repr]
      rfl
    rw [htext]
    exact spells_of_minus fun rest => readMagnitude?_toDigits hn true

end Spells

end FactNet.Json
