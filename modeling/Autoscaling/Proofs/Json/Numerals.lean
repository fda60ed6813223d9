import Autoscaling.Json.Reader
import Autoscaling.Json.Writer
import Autoscaling.Proofs.Json.Conversion
import Autoscaling.Proofs.Number.Decimals
import Autoscaling.Proofs.Number.Shortest

namespace Autoscaling

namespace Number

theorem head_toDigits {n : Nat} (pos : 0 < n) : ∀ c ∈ (Nat.toDigits 10 n).head?, c ≠ '0' := by
  induction n using Nat.strongRecOn with
  | ind n ih =>
    by_cases small : n < 10
    · have digit : ∀ n < 10, 0 < n → n.digitChar ≠ '0' := by decide
      rw [Nat.toDigits_of_lt_base small]
      rintro c ⟨⟩
      exact digit n small pos
    · rw [Nat.toDigits_of_base_le (by decide) (Nat.le_of_not_lt small),
        List.head?_append_of_ne_nil _ Nat.toDigits_ne_nil]
      exact ih (n / 10) (by omega) (by omega)

structure Significant (ds : List Char) : Prop where
  some : ds ≠ []
  digits : ∀ c ∈ ds, c.isDigit = true
  nonzero : ∀ c ∈ ds.head?, c ≠ '0'

theorem Decimal.inUnits_shift (c z : Nat) (p : ℤ) : inUnits (c * 10 ^ z) p = inUnits c (p + z) := by
  rw [inUnits, inUnits, zpow_add₀ (by norm_num), zpow_natCast]
  push_cast
  ring

theorem inUnits_zeros (ds : List Char) (z : Nat) (p : ℤ) :
    Decimal.inUnits (Nat.ofDigitChars 10 (ds ++ List.replicate z '0') 0) p =
      Decimal.inUnits (Nat.ofDigitChars 10 ds 0) (p + z) := by
  rw [Nat.ofDigitChars_append, Nat.ofDigitChars_replicate_zero, Nat.mul_comm, Decimal.inUnits_shift]

theorem Decimal.exists_zeros (d : Decimal) :
    ∃ z, Nat.toDigits 10 d.significand = d.digits ++ List.replicate z '0' := by
  have zeros : ∀ c ∈ (Nat.toDigits 10 d.significand).reverse.takeWhile (· == '0'), c = '0' :=
    fun c mem => eq_of_beq (List.all_eq_true.1 List.all_takeWhile c mem)
  refine ⟨((Nat.toDigits 10 d.significand).reverse.takeWhile (· == '0')).length, ?_⟩
  rw [← List.reverse_inj, List.reverse_append, List.reverse_replicate,
    ← List.eq_replicate_of_mem zeros, digits, List.reverse_reverse, List.takeWhile_append_dropWhile]

variable {d : Decimal}

theorem Decimal.significant_digits (pos : 0 < d.significand) : Significant d.digits := by
  obtain ⟨z, split⟩ := d.exists_zeros
  have some : d.digits ≠ [] := by
    intro none
    have zero := Nat.ofDigitChars_ten_toDigits (n := d.significand)
    rw [split, none, List.nil_append, Nat.ofDigitChars_replicate_zero, Nat.mul_zero] at zero
    omega
  refine ⟨some, fun c mem => ?_, fun c mem => ?_⟩
  · exact isDigit_of_mem (split ▸ List.mem_append_left _ mem)
  · refine head_toDigits pos c ?_
    rwa [split, List.head?_append_of_ne_nil _ some]

theorem Decimal.inUnits_digits (d : Decimal) :
    inUnits d.significand d.exponent =
      inUnits (Nat.ofDigitChars 10 d.digits 0) (d.leading + 1 - d.digits.length) := by
  obtain ⟨z, split⟩ := d.exists_zeros
  rw [← Nat.ofDigitChars_ten_toDigits (n := d.significand), split, inUnits_zeros, leading, split,
    List.length_append, List.length_replicate]
  congr 1
  push_cast
  ring

/-- Few digits, none of them far from the point. -/
def Binary64.Short (x : Binary64) : Prop :=
  let d := Decimal.shortest .even x.magnitude
  d.digits.length ≤ 15 ∧ -5 ≤ d.leading ∧ d.leading < 14

instance (x : Binary64) : Decidable x.Short := inferInstanceAs (Decidable (_ ∧ _ ∧ _))

end Number

namespace Json

open Number

def placesText (places : List Char) : List Char := if places.isEmpty then [] else '.' :: places

def powerText : Option ℤ → List Char
  | none => []
  | some k => 'e' :: (if k < 0 then '-' else '+') :: Nat.toDigits 10 k.natAbs

def Numeral.text (n : Numeral) : List Char :=
  n.whole ++ (placesText n.places ++ powerText n.power)

structure Numeral.Proper (n : Numeral) : Prop where
  some : n.whole ≠ []
  whole : ∀ c ∈ n.whole, c.isDigit = true
  places : ∀ c ∈ n.places, c.isDigit = true
  leading : n.whole = ['0'] ∨ ∀ c ∈ n.whole.head?, c ≠ '0'

variable {convert : Conversion} {n : Numeral}

theorem Numeral.proper_toDigits (k : Nat) : Numeral.Proper ⟨Nat.toDigits 10 k, [], none⟩ where
  some := Nat.toDigits_ne_nil
  whole _ := isDigit_of_mem
  places _ mem := nomatch mem
  leading := by
    rcases Nat.eq_zero_or_pos k with rfl | pos
    · exact .inl rfl
    · exact .inr (head_toDigits pos)

theorem Numeral.text_toDigits (k : Nat) :
    Numeral.text ⟨Nat.toDigits 10 k, [], none⟩ = Nat.toDigits 10 k := by
  simp [Numeral.text, placesText, powerText]

namespace Reader

def Ends (c : Char) : Prop := c.isDigit = false ∧ c ≠ '.' ∧ c ≠ 'e' ∧ c ≠ 'E'

instance (c : Char) : Decidable (Ends c) := inferInstanceAs (Decidable (_ ∧ _))

variable {rest : List Char}

theorem digits1_append {ds : List Char} (some : ds ≠ []) (all : ∀ c ∈ ds, c.isDigit = true)
    (stop : ∀ c ∈ rest.head?, c.isDigit = false) : digits1 (ds ++ rest) = .some (ds, rest) := by
  rw [digits1, digits, span_append all stop]
  cases ds with
  | nil => exact absurd rfl some
  | cons d ds => rfl

theorem whole_append (proper : n.Proper) (stop : ∀ c ∈ rest.head?, c.isDigit = false) :
    whole (n.whole ++ rest) = some (n.whole, rest) := by
  rcases proper.leading with zero | nonzero
  · rw [zero]
    cases rest with
    | nil => rfl
    | cons c rest => simp [whole, stop c rfl]
  · have digits := digits1_append proper.some proper.whole stop
    obtain ⟨c, cs, eq⟩ := List.exists_cons_of_ne_nil proper.some
    rw [eq] at nonzero digits ⊢
    rw [List.cons_append] at digits ⊢
    unfold whole
    split
    · next head =>
      cases head
      exact absurd rfl (nonzero '0' rfl)
    · exact digits

theorem places_append (proper : n.Proper) (stop : ∀ c ∈ rest.head?, c.isDigit = false ∧ c ≠ '.') :
    places (placesText n.places ++ rest) = some (n.places, rest) := by
  unfold placesText
  cases eq : n.places with
  | nil =>
    unfold places
    split
    · next head => exact absurd rfl (stop '.' (by simp_all)).2
    · rfl
  | cons d ds =>
    exact digits1_append (List.cons_ne_nil d ds) (eq ▸ proper.places) fun c mem => (stop c mem).1

theorem powerDigits_append (negative : Bool) (k : Nat)
    (stop : ∀ c ∈ rest.head?, c.isDigit = false) :
    powerDigits negative (Nat.toDigits 10 k ++ rest) =
      some (some (if negative then -(k : ℤ) else k), rest) := by
  rw [powerDigits, digits1_append Nat.toDigits_ne_nil (fun _ => isDigit_of_mem) stop]
  simp only [Option.bind_eq_bind, Option.bind_some, Nat.ofDigitChars_ten_toDigits]

theorem power_append (k : Option ℤ) (stop : ∀ c ∈ rest.head?, Ends c) :
    power (powerText k ++ rest) = some (k, rest) := by
  cases k with
  | none =>
    cases rest with
    | nil => rfl
    | cons c rest =>
      obtain ⟨-, -, e, e'⟩ := stop c rfl
      simp [powerText, power, e, e']
  | some k =>
    have digits (negative : Bool) : powerDigits negative (Nat.toDigits 10 k.natAbs ++ rest) = _ :=
      powerDigits_append negative k.natAbs fun c mem => (stop c mem).1
    rw [powerText]
    by_cases negative : k < 0
    · have eq : (-k.natAbs : ℤ) = k := by omega
      rw [if_pos negative]
      exact (digits true).trans (by rw [if_pos rfl, eq])
    · have eq : (k.natAbs : ℤ) = k := by omega
      rw [if_neg negative]
      exact (digits false).trans (by rw [if_neg Bool.false_ne_true, eq])

theorem numeral_text (proper : n.Proper) (stop : ∀ c ∈ rest.head?, Ends c) :
    numeral (n.text ++ rest) = some (n, rest) := by
  have power := power_append n.power stop
  have first : ∀ c ∈ (powerText n.power ++ rest).head?, c.isDigit = false ∧ c ≠ '.' := by
    cases n.power with
    | none => exact fun c mem => ⟨(stop c mem).1, (stop c mem).2.1⟩
    | some k =>
      rintro c ⟨⟩
      decide
  have places := places_append proper first
  have first : ∀ c ∈ (placesText n.places ++ (powerText n.power ++ rest)).head?,
      c.isDigit = false := by
    cases eq : n.places with
    | nil => exact fun c mem => (first c mem).1
    | cons d ds =>
      rintro c ⟨⟩
      decide
  have whole := whole_append proper first
  rw [numeral, Numeral.text, List.append_assoc, List.append_assoc, whole]
  simp only [Option.bind_eq_bind, Option.bind_some, places, power]

theorem number_text (proper : n.Proper) (stop : ∀ c ∈ rest.head?, Ends c) (negative : Bool) :
    number convert ((if negative then '-' :: n.text else n.text) ++ rest) =
      (convert.value negative n).map (·, rest) := by
  have read := numeral_text proper stop
  cases negative with
  | true =>
    rw [if_pos rfl, List.cons_append, number, read]
    simp only [Option.bind_eq_bind, Option.bind_some, Option.map_eq_bind, Function.comp_def]
  | false =>
    rw [if_neg Bool.false_ne_true]
    obtain ⟨d, ds, eq⟩ := List.exists_cons_of_ne_nil proper.some
    have digit := proper.whole d (eq ▸ List.mem_cons_self)
    unfold number
    split
    · next head =>
      rw [Numeral.text, eq] at head
      cases head
      cases digit
    · rw [read]
      simp only [Option.bind_eq_bind, Option.bind_some, Option.map_eq_bind, Function.comp_def]

theorem value_toDigits (k : Nat) (negative : Bool)
    (fits : if negative then 0 < k ∧ k ≤ 2 ^ 63 else k < 2 ^ 64) :
    convert.value negative ⟨Nat.toDigits 10 k, [], none⟩ =
      some (.integer (if negative then -k else k)) := by
  unfold Conversion.value
  simp only [Nat.ofDigitChars_ten_toDigits]
  cases negative with
  | true => simp_all
  | false => simp_all

theorem number_integer {k : ℤ} (low : -2 ^ 63 ≤ k) (high : k < 2 ^ 64)
    (stop : ∀ c ∈ rest.head?, Ends c) :
    number convert ((toString k).toList ++ rest) = some (.integer k, rest) := by
  have value (m : Nat) (negative : Bool) : number convert _ = _ :=
    number_text (Numeral.proper_toDigits m) stop negative
  simp only [Numeral.text_toDigits] at value
  cases k with
  | ofNat m =>
    have digits : (toString (Int.ofNat m)).toList = Nat.toDigits 10 m := by
      change (Nat.repr m).toList = _
      rw [Nat.repr_eq_ofList_toDigits, String.toList_ofList]
    rw [digits]
    refine (value m false).trans ?_
    have fits : m < 2 ^ 64 := Int.ofNat_lt.1 high
    rw [value_toDigits m false (by simpa using fits)]
    rfl
  | negSucc m =>
    have digits : (toString (Int.negSucc m)).toList = '-' :: Nat.toDigits 10 (m + 1) := by
      change ("-" ++ Nat.repr (m + 1)).toList = _
      simp [Nat.repr_eq_ofList_toDigits]
    rw [digits]
    refine (value (m + 1) true).trans ?_
    rw [value_toDigits (m + 1) true (by simpa using (by omega : m + 1 ≤ 2 ^ 63))]
    rfl

end Reader

namespace Numeral

def significand (n : Numeral) : Nat := Nat.ofDigitChars 10 (n.whole ++ n.places) 0

def exponent (n : Numeral) : ℤ := n.power.getD 0 - n.places.length

def units (n : Numeral) : ℚ := Decimal.inUnits n.significand n.exponent

def Fractional (n : Numeral) : Prop := (n.places.isEmpty && n.power.isNone) = false

/-- The text is that of a numeral which can only be a double, of so many units. -/
structure Spells (n : Numeral) (text : List Char) (x : ℚ) : Prop where
  text : n.text = text
  proper : n.Proper
  fractional : n.Fractional
  units : n.units = x

end Numeral

theorem Conversion.value_of_fractional (fractional : n.Fractional) (negative : Bool) :
    convert.value negative n =
      if (convert negative n).isFinite then some (.float (convert negative n)) else none := by
  unfold Conversion.value
  dsimp only
  rw [fractional, if_neg Bool.false_ne_true]

theorem Conversion.exact_of_roundsTo {x : Binary64} (finite : x.isFinite = true)
    (pos : 0 < x.magnitude) (rounds : Binary64.RoundsTo n.units x.magnitude) :
    exact x.negative n = x :=
  Decimal.ofDecimal_eq rounds pos finite

namespace Numeral

variable {ds : List Char} {leading : ℤ}

theorem isDigit_of_mem_zeros {k : Nat} {c : Char} (mem : c ∈ FloatStyle.zeros k) :
    c.isDigit = true :=
  List.eq_of_mem_replicate mem ▸ rfl

theorem text_of_places {whole places : List Char} (some : places ≠ []) (power : Option ℤ) :
    Numeral.text ⟨whole, places, power⟩ = whole ++ '.' :: (places ++ powerText power) := by
  rw [Numeral.text, placesText, if_neg (mt List.isEmpty_iff.1 some), List.cons_append]

theorem fractional_of_places {whole places : List Char} (some : places ≠ []) (power : Option ℤ) :
    Numeral.Fractional ⟨whole, places, power⟩ := by
  rw [Numeral.Fractional, List.isEmpty_eq_false_iff.2 some, Bool.false_and]

def below (ds : List Char) (k : Nat) : Numeral := ⟨['0'], FloatStyle.zeros k ++ ds, none⟩

def above (ds : List Char) (k : Nat) : Numeral := ⟨ds ++ FloatStyle.zeros k, ['0'], none⟩

def amid (ds : List Char) (k : Nat) (power : Option ℤ) : Numeral := ⟨ds.take k, ds.drop k, power⟩

theorem significand_below (ds : List Char) (k : Nat) :
    (below ds k).significand = Nat.ofDigitChars 10 ds 0 := by
  have zero : Nat.ofDigitChars 10 ['0'] 0 = 0 := by decide
  simp only [significand, below, FloatStyle.zeros, Nat.ofDigitChars_append,
    Nat.ofDigitChars_replicate_zero, zero, Nat.mul_zero]

theorem significand_amid (ds : List Char) (k : Nat) (power : Option ℤ) :
    (amid ds k power).significand = Nat.ofDigitChars 10 ds 0 := by
  rw [significand, amid, List.take_append_drop]

theorem spells_below (sig : Significant ds) (k : Nat) :
    (below ds k).Spells ('0' :: '.' :: FloatStyle.zeros k ++ ds)
      (Decimal.inUnits (Nat.ofDigitChars 10 ds 0) (-(k + ds.length : Nat))) := by
  have some : FloatStyle.zeros k ++ ds ≠ [] := List.append_ne_nil_of_right_ne_nil _ sig.some
  refine ⟨?_, ⟨?_, ?_, ?_, ?_⟩, fractional_of_places some _, ?_⟩
  · simp [below, text_of_places some, powerText]
  · exact List.cons_ne_nil _ _
  · exact fun c mem => List.mem_singleton.1 mem ▸ rfl
  · exact fun c mem => (List.mem_append.1 mem).elim isDigit_of_mem_zeros (sig.digits c)
  · exact .inl rfl
  · rw [units, significand_below]
    congr 1
    simp [exponent, below, FloatStyle.zeros]

theorem spells_above (sig : Significant ds) (k : Nat) :
    (above ds k).Spells (ds ++ FloatStyle.zeros k ++ ['.', '0'])
      (Decimal.inUnits (Nat.ofDigitChars 10 ds 0) k) := by
  have some : ['0'] ≠ [] := List.cons_ne_nil _ _
  refine ⟨?_, ⟨?_, ?_, ?_, ?_⟩, fractional_of_places some _, ?_⟩
  · simp [above, text_of_places some, powerText]
  · exact List.append_ne_nil_of_left_ne_nil sig.some _
  · exact fun c mem => (List.mem_append.1 mem).elim (sig.digits c) isDigit_of_mem_zeros
  · exact fun c mem => List.mem_singleton.1 mem ▸ rfl
  · right
    rw [above, List.head?_append_of_ne_nil _ sig.some]
    exact sig.nonzero
  · have zeros : ds ++ FloatStyle.zeros k ++ ['0'] = ds ++ List.replicate (k + 1) '0' := by
      rw [List.append_assoc, FloatStyle.zeros, List.replicate_succ']
    rw [units, significand, above, zeros, inUnits_zeros]
    congr 1
    simp [exponent]

theorem spells_amid (sig : Significant ds) {k : Nat} (less : k + 1 < ds.length) (power : Option ℤ) :
    (amid ds (k + 1) power).Spells
      (ds.take (k + 1) ++ '.' :: (ds.drop (k + 1) ++ powerText power))
      (Decimal.inUnits (Nat.ofDigitChars 10 ds 0)
        (power.getD 0 - (ds.length - (k + 1) : Nat))) := by
  obtain ⟨d, ds, rfl⟩ := List.exists_cons_of_ne_nil sig.some
  have some : (d :: ds).drop (k + 1) ≠ [] := by
    rw [← List.length_pos_iff, List.length_drop]
    omega
  refine ⟨text_of_places some power, ⟨?_, ?_, ?_, ?_⟩, fractional_of_places some _, ?_⟩
  · exact List.cons_ne_nil _ _
  · exact fun c mem => sig.digits c (List.mem_of_mem_take mem)
  · exact fun c mem => sig.digits c (List.mem_of_mem_drop mem)
  · exact .inr sig.nonzero
  · rw [units, significand_amid, exponent, amid, List.length_drop]

def positional (ds : List Char) (leading : ℤ) : Numeral :=
  if leading < 0 then below ds (-leading - 1).toNat
  else if ds.length ≤ leading.toNat + 1 then above ds (leading.toNat + 1 - ds.length)
  else amid ds (leading.toNat + 1) none

def scientific (ds : List Char) (leading : ℤ) : Numeral := amid ds 1 (some leading)

theorem spells_positional (sig : Significant ds) (leading : ℤ) :
    (positional ds leading).Spells (FloatStyle.positionalText ds leading)
      (Decimal.inUnits (Nat.ofDigitChars 10 ds 0) (leading + 1 - ds.length)) := by
  unfold positional FloatStyle.positionalText
  split
  · convert spells_below sig (-leading - 1).toNat using 2
    omega
  · dsimp only
    split
    · convert spells_above sig (leading.toNat + 1 - ds.length) using 2
      omega
    · next more =>
      convert spells_amid sig (Nat.lt_of_not_le more) none using 2
      · simp [powerText]
      · simp
        omega

theorem spells_scientific (sig : Significant ds) (leading : ℤ) :
    (scientific ds leading).Spells (FloatStyle.exponentText ds leading)
      (Decimal.inUnits (Nat.ofDigitChars 10 ds 0) (leading + 1 - ds.length)) := by
  unfold scientific FloatStyle.exponentText
  split
  · next single =>
    have length := List.length_pos_iff.2 sig.some
    refine ⟨?_, ⟨?_, ?_, ?_, .inr ?_⟩, by simp [Fractional, amid], ?_⟩
    · simp [amid, Numeral.text, placesText, powerText, List.drop_eq_nil_of_le single]
    · simp [amid, sig.some]
    · exact fun c mem => sig.digits c (List.mem_of_mem_take mem)
    · exact fun c mem => sig.digits c (List.mem_of_mem_drop mem)
    · rw [amid, List.take_of_length_le single]
      exact sig.nonzero
    · rw [units, significand_amid, exponent, amid, List.length_drop]
      congr 1
      simp
      omega
  · next several =>
    have places : leading + 1 - (ds.length : ℤ) = leading - (ds.length - (0 + 1) : Nat) := by omega
    have amid := spells_amid sig (k := 0) (Nat.lt_of_not_le several) (some leading)
    rw [places]
    simpa [powerText] using amid

/-- The numeral that the magnitude of a double is written as. -/
def ofMagnitude (style : FloatStyle) (m : Nat) : Numeral :=
  if m = 0 then ⟨['0'], ['0'], none⟩
  else
    let d := Decimal.shortest style.tie m
    if style.positional d.leading then positional d.digits d.leading
    else scientific d.digits d.leading

theorem spells_ofMagnitude {m : Nat} (pos : 0 < m) (style : FloatStyle) :
    ∃ x, (ofMagnitude style m).Spells
      (let d := Decimal.shortest style.tie m
        if style.positional d.leading then FloatStyle.positionalText d.digits d.leading
        else FloatStyle.exponentText d.digits d.leading) x ∧ Binary64.RoundsTo x m := by
  have rounds := Decimal.roundsTo_shortest pos style.tie
  have sig := Decimal.significant_digits (Decimal.pos_of_roundsTo rounds pos)
  rw [ofMagnitude, if_neg (Nat.ne_of_gt pos)]
  rw [Decimal.inUnits_digits] at rounds
  dsimp only
  split
  · exact ⟨_, spells_positional sig _, rounds⟩
  · exact ⟨_, spells_scientific sig _, rounds⟩

variable {x : Binary64}

theorem toList_write (finite : x.isFinite = true) (style : FloatStyle) :
    (style.write x).toList =
      if x.negative then '-' :: (ofMagnitude style x.magnitude).text
      else (ofMagnitude style x.magnitude).text := by
  have finite : x.magnitude < Binary64.infinity := of_decide_eq_true finite
  have number : x.isNaN = false := decide_eq_false (Nat.lt_asymm finite)
  rw [FloatStyle.write, number, if_neg Bool.false_ne_true, if_neg (Nat.ne_of_lt finite),
    String.toList_ofList]
  rcases Nat.eq_zero_or_pos x.magnitude with zero | pos
  · rw [ofMagnitude, if_pos zero, if_pos zero]
    rfl
  · obtain ⟨_, spells, -⟩ := spells_ofMagnitude pos style
    rw [if_neg (Nat.ne_of_gt pos), spells.text]

theorem proper_ofMagnitude (style : FloatStyle) (m : Nat) :
    (ofMagnitude style m).Proper ∧ (ofMagnitude style m).Fractional := by
  rcases Nat.eq_zero_or_pos m with rfl | pos
  · refine ⟨⟨List.cons_ne_nil _ _, ?_, ?_, .inl rfl⟩, rfl⟩
    · exact fun c mem => List.mem_singleton.1 mem ▸ rfl
    · exact fun c mem => List.mem_singleton.1 mem ▸ rfl
  · obtain ⟨_, spells, -⟩ := spells_ofMagnitude pos style
    exact ⟨spells.proper, spells.fractional⟩

theorem exact_ofMagnitude (finite : x.isFinite = true) (style : FloatStyle) :
    Conversion.exact x.negative (ofMagnitude style x.magnitude) = x := by
  rcases Nat.eq_zero_or_pos x.magnitude with zero | pos
  · obtain ⟨negative, _, _⟩ := x
    cases zero
    rfl
  · obtain ⟨_, ⟨-, -, -, rfl⟩, rounds⟩ := spells_ofMagnitude pos style
    exact Conversion.exact_of_roundsTo finite pos rounds

end Numeral

/-- The double that the text of a double is converted to, if it is in range. -/
def Conversion.back? (convert : Conversion) (x : Binary64) : Option Binary64 :=
  (some (convert x.negative (.ofMagnitude floats x.magnitude))).filter Binary64.isFinite

theorem Conversion.back?_exact {x : Binary64} (finite : x.isFinite = true) :
    exact.back? x = some x := by
  rw [back?, Numeral.exact_ofMagnitude finite, Option.filter_some, if_pos finite]

theorem Numeral.small_positional {ds : List Char} {leading : ℤ} (sig : Significant ds)
    (few : ds.length ≤ 15) (low : -5 ≤ leading) (high : leading < 14) :
    (positional ds leading).significand < 10 ^ 15 ∧ -23 < (positional ds leading).exponent ∧
      (positional ds leading).exponent < 23 := by
  have value := Nat.lt_of_lt_of_le (ofDigitChars_lt sig.digits)
    (Nat.pow_le_pow_right (by decide) few)
  unfold positional
  split
  · refine ⟨by rwa [significand_below], ?_⟩
    simp [exponent, below, FloatStyle.zeros]
    omega
  · split
    · next above more =>
      have digits : ∀ c ∈ ds ++ FloatStyle.zeros (leading.toNat + 1 - ds.length) ++ ['0'],
          c.isDigit = true := by
        simp only [List.forall_mem_append]
        exact ⟨⟨sig.digits, fun _ => isDigit_of_mem_zeros⟩, fun c mem =>
          List.mem_singleton.1 mem ▸ rfl⟩
      have length :
          (ds ++ FloatStyle.zeros (leading.toNat + 1 - ds.length) ++ ['0']).length ≤ 15 := by
        simp [FloatStyle.zeros]
        omega
      refine ⟨Nat.lt_of_lt_of_le (ofDigitChars_lt digits)
        (Nat.pow_le_pow_right (by decide) length), ?_⟩
      simp [exponent, Numeral.above]
    · refine ⟨by rwa [significand_amid], ?_⟩
      simp [exponent, amid]
      omega

theorem Conversion.back?_stepwise {x : Binary64} (finite : x.isFinite = true) (short : x.Short) :
    stepwise.back? x = some x := by
  have small : (Numeral.ofMagnitude floats x.magnitude).significand < 10 ^ 15 ∧
      -23 < (Numeral.ofMagnitude floats x.magnitude).exponent ∧
        (Numeral.ofMagnitude floats x.magnitude).exponent < 23 := by
    obtain ⟨few, low, high⟩ := short
    rw [Numeral.ofMagnitude]
    split
    · decide
    · next nonzero =>
      have pos := Nat.pos_of_ne_zero nonzero
      have rounds := Decimal.roundsTo_shortest pos floats.tie
      have sig := Decimal.significant_digits (Decimal.pos_of_roundsTo rounds pos)
      have placed : floats.positional (Decimal.shortest floats.tie x.magnitude).leading = true := by
        simp only [floats, Bool.and_eq_true, decide_eq_true_eq]
        exact ⟨low, Int.lt_trans high (by decide)⟩
      dsimp only
      rw [if_pos placed]
      exact Numeral.small_positional sig few low high
  obtain ⟨few, low, high⟩ := small
  have same := stepwise_eq_exact (Nat.le_of_lt (Nat.lt_trans few (by decide))) low high x.negative
  rw [back?, same, Numeral.exact_ofMagnitude finite, Option.filter_some, if_pos finite]

theorem Reader.number_float {x : Binary64} {rest : List Char} (finite : x.isFinite = true)
    (stop : ∀ c ∈ rest.head?, Ends c) :
    number convert ((floats.write x).toList ++ rest) =
      (convert.back? x).map fun y => (.float y, rest) := by
  obtain ⟨proper, fractional⟩ := Numeral.proper_ofMagnitude floats x.magnitude
  rw [Numeral.toList_write finite, number_text proper stop,
    Conversion.value_of_fractional fractional, Conversion.back?, Option.filter_some]
  split <;> rfl

end Json

end Autoscaling
