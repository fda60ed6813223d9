import Autoscaling.Proofs.Duration.Reread

namespace Autoscaling

namespace Text

/-- The text `t` is left of `s` without the white space at its ends. -/
structure Core (s t : List Char) : Prop where
  parts : ∃ lead trail, s = lead ++ t ++ trail ∧ lead.all isBlank = true ∧ trail.all isBlank = true
  first : ∀ c ∈ t.head?, isBlank c = false
  last : ∀ c ∈ t.getLast?, isBlank c = false

theorem trimStart_append {lead : List Char} (blank : lead.all isBlank = true) (s : List Char) :
    trimStart (lead ++ s) = trimStart s :=
  List.dropWhile_append_of_pos (List.all_eq_true.1 blank)

theorem trimEnd_append {trail : List Char} (blank : trail.all isBlank = true) (s : List Char) :
    trimEnd (s ++ trail) = trimEnd s := by
  rw [trimEnd, trimEnd, List.reverse_append]
  exact congrArg List.reverse (trimStart_append (by rwa [List.all_reverse]) _)

theorem exists_trimStart (s : List Char) :
    ∃ lead, s = lead ++ trimStart s ∧ lead.all isBlank = true :=
  ⟨s.takeWhile isBlank, List.takeWhile_append_dropWhile.symm, List.all_takeWhile⟩

theorem exists_trimEnd (s : List Char) :
    ∃ trail, s = trimEnd s ++ trail ∧ trail.all isBlank = true := by
  obtain ⟨lead, eq, blank⟩ := exists_trimStart s.reverse
  refine ⟨lead.reverse, ?_, by rwa [List.all_reverse]⟩
  rw [trimEnd, ← List.reverse_append]
  exact List.reverse_eq_iff.1 eq

theorem head_trimStart (s : List Char) : ∀ c ∈ (trimStart s).head?, isBlank c = false :=
  fun c first => by
    have := List.head?_dropWhile_not isBlank s
    rw [trimStart] at first
    simpa [Option.mem_def.1 first] using this

theorem getLast_trimEnd (s : List Char) : ∀ c ∈ (trimEnd s).getLast?, isBlank c = false := by
  rw [trimEnd, List.getLast?_reverse]
  exact head_trimStart s.reverse

theorem core_trim (s : List Char) : Core s (trim s) := by
  obtain ⟨lead, start, blank⟩ := exists_trimStart s
  obtain ⟨trail, stop, blank'⟩ := exists_trimEnd (trimStart s)
  refine ⟨⟨lead, trail, ?_, blank, blank'⟩, fun c first => ?_, getLast_trimEnd _⟩
  · rw [trim, List.append_assoc, ← stop]
    exact start
  · refine head_trimStart s c ?_
    rw [stop, List.head?_append]
    exact Option.mem_def.2 (by rw [trim] at first; rw [Option.mem_def.1 first]; rfl)

theorem exists_trim {s : List Char} (first : ∀ c ∈ s.head?, isBlank c = false) :
    ∃ trail, s = trim s ++ trail ∧ trail.all isBlank = true := by
  rw [trim, trimStart_eq_self first]
  exact exists_trimEnd s

theorem trim_append {s trail : List Char} (ends : trim s = s) (blank : trail.all isBlank = true)
    (first : ∀ c ∈ s.head?, isBlank c = false) (ne : s ≠ []) : trim (s ++ trail) = s := by
  have start : trimStart (s ++ trail) = s ++ trail :=
    trimStart_eq_self (by rwa [List.head?_append_of_ne_nil _ ne])
  rw [trim, trimStart_eq_self first] at ends
  rw [trim, start, trimEnd_append blank, ends]

end Text

namespace Duration

open Number

/-- A way to spell a duration: a plus sign or none, digits, white space, and a unit or none. -/
structure Spelling where
  plus : Bool
  digits : List Char
  blanks : List Char
  unit? : Option Unit
  digits_ne_nil : digits ≠ []
  all_isDigit : digits.all Char.isDigit = true
  all_isBlank : blanks.all Text.isBlank = true

namespace Spelling

def sign (plus : Bool) : List Char := if plus then ['+'] else []

def number (x : Spelling) : List Char := sign x.plus ++ x.digits

def text (x : Spelling) : List Char := x.number ++ x.blanks ++ x.unit?.elim [] Unit.symbol

def unit (x : Spelling) : Unit := x.unit?.getD .second

def nanos (x : Spelling) : Nat := Nat.ofDigitChars 10 x.digits 0 * x.unit.nanos

theorem number_ne_nil (x : Spelling) : x.number ≠ [] :=
  List.append_ne_nil_of_right_ne_nil _ x.digits_ne_nil

theorem not_isBlank_of_mem {x : Spelling} {c : Char} (mem : c ∈ x.number) :
    Text.isBlank c = false := by
  rcases List.mem_append.1 mem with signed | digit
  · cases plus : x.plus <;> simp [sign, plus] at signed
    rw [signed]
    decide
  · exact Text.not_isBlank_of_isDigit (List.all_eq_true.1 x.all_isDigit c digit)

theorem getLast_ne {x : Spelling} {c : Char} (last : c ∈ (x.number ++ x.blanks).getLast?)
    (letter : c ∈ ['n', 'm', 's', 'h']) : False := by
  have no : c.isDigit = false ∧ Text.isBlank c = false := by
    simp only [List.mem_cons, List.not_mem_nil, or_false] at letter
    rcases letter with rfl | rfl | rfl | rfl <;> decide
  rw [number, List.append_assoc, List.getLast?_append_of_ne_nil _
    (List.append_ne_nil_of_left_ne_nil x.digits_ne_nil _)] at last
  rcases List.mem_append.1 (List.mem_of_getLast? last) with digit | blank
  · rw [List.all_eq_true.1 x.all_isDigit c digit] at no
    cases no.1
  · rw [List.all_eq_true.1 x.all_isBlank c blank] at no
    cases no.2

end Spelling

theorem map_word?_eq_some_iff {n : Nat} {d : Duration} :
    (word? n).map ofNanos = some d ↔ n = d.nanos ∧ d.nanos < 2 ^ 64 := by
  unfold word?
  split
  · next fits =>
    have value : (ofNanos (UInt64.ofNat n)).nanos = n := UInt64.toNat_ofNat_of_lt' fits
    constructor
    · rintro ⟨⟩
      exact ⟨value.symm, value.symm ▸ fits⟩
    · rintro ⟨eq, _⟩
      exact congrArg some (ext (value.trans eq))
  · next large => exact ⟨nofun, fun ⟨eq, fits⟩ => absurd (eq ▸ fits) large⟩

theorem digits?_eq_some_iff {s : List Char} {n : Nat} :
    digits? s = some n ↔ s ≠ [] ∧ s.all Char.isDigit = true ∧ Nat.ofDigitChars 10 s 0 = n := by
  unfold digits?
  split
  · next good =>
    simp only [Bool.and_eq_true, Bool.not_eq_true', List.isEmpty_eq_false_iff] at good
    simp [good]
  · next bad =>
    simp only [Bool.and_eq_true, Bool.not_eq_true', List.isEmpty_eq_false_iff] at bad
    exact ⟨nofun, fun ⟨ne, all, _⟩ => absurd ⟨ne, all⟩ bad⟩

theorem number?_eq_some_iff {s : List Char} {n : Nat} :
    number? s = some n ↔ ∃ plus digits, s = Spelling.sign plus ++ digits ∧ digits ≠ [] ∧
      digits.all Char.isDigit = true ∧ Nat.ofDigitChars 10 digits 0 = n := by
  constructor
  · intro read
    unfold number? at read
    split at read
    · next digits => exact ⟨true, digits, rfl, digits?_eq_some_iff.1 read⟩
    · exact ⟨false, s, rfl, digits?_eq_some_iff.1 read⟩
  · rintro ⟨plus, digits, rfl, good⟩
    have read := digits?_eq_some_iff.2 good
    cases plus with
    | true => exact read
    | false =>
      change number? digits = some n
      unfold number?
      split
      · have := List.all_eq_true.1 good.2.1 '+' (List.mem_cons_self ..)
        cases this
      · exact read

theorem splitUnit_cases (s : List Char) :
    s = (splitUnit s).1 ++ (splitUnit s).2.symbol ∨ splitUnit s = (s, .second) := by
  have reversed {t rest : List Char} (symbol : List Char)
      (eq : t.reverse = symbol.reverse ++ rest) : t = rest.reverse ++ symbol := by
    rw [← List.reverse_inj, eq, List.reverse_append, List.reverse_reverse]
  unfold splitUnit
  split
  · next eq => exact .inl (reversed ['n', 's'] eq)
  · next eq => exact .inl (reversed ['m', 's'] eq)
  · next eq => exact .inl (reversed ['s'] eq)
  · next eq => exact .inl (reversed ['m'] eq)
  · next eq => exact .inl (reversed ['h'] eq)
  · exact .inr rfl

theorem splitUnit_of_getLast {s : List Char}
    (other : ∀ c ∈ s.getLast?, c ≠ 's' ∧ c ≠ 'm' ∧ c ≠ 'h') : splitUnit s = (s, .second) := by
  rw [← List.head?_reverse] at other
  unfold splitUnit
  split <;> simp_all

theorem splitUnit_text (x : Spelling) : splitUnit x.text = (x.number ++ x.blanks, x.unit) := by
  have ne {c d : Char} (last : c ∈ (x.number ++ x.blanks).getLast?)
      (letter : d ∈ ['n', 'm', 's', 'h']) : c ≠ d := fun eq =>
    Spelling.getLast_ne last (eq ▸ letter)
  unfold Spelling.text Spelling.unit
  cases x.unit? with
  | none =>
    rw [Option.elim_none, List.append_nil, Option.getD_none]
    exact splitUnit_of_getLast fun c last =>
      ⟨ne last (by simp), ne last (by simp), ne last (by simp)⟩
  | some u =>
    rw [Option.elim_some, Option.getD_some]
    exact splitUnit_append (fun c last => ⟨ne last (by simp), ne last (by simp)⟩) u

theorem trimmed?_text (x : Spelling) : trimmed? x.text = (word? x.nanos).map ofNanos := by
  have first : ∀ c ∈ x.number.head?, Text.isBlank c = false := fun _ first =>
    Spelling.not_isBlank_of_mem (List.mem_of_mem_head? first)
  have self : Text.trim x.number = x.number := Text.trim_eq_self first fun _ last =>
    Spelling.not_isBlank_of_mem (List.mem_of_getLast? last)
  have trim := Text.trim_append self x.all_isBlank first x.number_ne_nil
  have read : number? x.number = some (Nat.ofDigitChars 10 x.digits 0) :=
    number?_eq_some_iff.2 ⟨x.plus, x.digits, rfl, x.digits_ne_nil, x.all_isDigit, rfl⟩
  rw [trimmed?, splitUnit_text]
  dsimp only
  rw [trim, read]
  exact word?_mul _ _

theorem exists_spelling {t : List Char} (first : ∀ c ∈ t.head?, Text.isBlank c = false)
    {d : Duration} (read : trimmed? t = some d) : ∃ x : Spelling, x.text = t := by
  simp only [trimmed?, Option.bind_eq_bind, Option.bind_eq_some_iff] at read
  obtain ⟨n, number, _⟩ := read
  obtain ⟨plus, digits, eq, ne, all, _⟩ := number?_eq_some_iff.1 number
  -- Nothing is trimmed in front, because the text itself does not begin with white space.
  have start : ∀ c ∈ (splitUnit t).1.head?, Text.isBlank c = false := by
    rcases splitUnit_cases t with split | split
    · intro c head
      refine first c ?_
      rw [split, List.head?_append, Option.mem_def.1 head]
      rfl
    · rwa [split]
  obtain ⟨trail, parts, blank⟩ := Text.exists_trim start
  rw [eq] at parts
  rcases splitUnit_cases t with split | split
  · refine ⟨⟨plus, digits, trail, some (splitUnit t).2, ne, all, blank⟩, ?_⟩
    exact (congrArg (· ++ (splitUnit t).2.symbol) parts.symm).trans split.symm
  · refine ⟨⟨plus, digits, trail, none, ne, all, blank⟩, ?_⟩
    rw [split] at parts
    exact (List.append_nil _).trans parts.symm

theorem trimmed?_eq_some_iff {t : List Char} (first : ∀ c ∈ t.head?, Text.isBlank c = false)
    {d : Duration} : trimmed? t = some d ↔
      ∃ x : Spelling, x.text = t ∧ x.nanos = d.nanos ∧ d.nanos < 2 ^ 64 := by
  constructor
  · intro read
    obtain ⟨x, rfl⟩ := exists_spelling first read
    rw [trimmed?_text] at read
    exact ⟨x, rfl, map_word?_eq_some_iff.1 read⟩
  · rintro ⟨x, rfl, value⟩
    rw [trimmed?_text]
    exact map_word?_eq_some_iff.2 value

theorem trimmed?_eq_none_iff {t : List Char} (first : ∀ c ∈ t.head?, Text.isBlank c = false) :
    trimmed? t = none ↔ ∀ x : Spelling, x.text = t → 2 ^ 64 ≤ x.nanos := by
  constructor
  · rintro none x rfl
    rw [trimmed?_text, word?] at none
    split at none
    · cases none
    · next large => exact Nat.le_of_not_lt large
  · intro large
    rw [Option.eq_none_iff_forall_ne_some]
    intro d read
    obtain ⟨x, text, value, fits⟩ := (trimmed?_eq_some_iff first).1 read
    exact absurd (value ▸ large x text) (Nat.not_le_of_lt fits)

/-- A text is read exactly if, trimmed, it spells a duration of fewer than 2^64 nanoseconds, and as
that duration; what is refused is the trimmed text. -/
theorem read_spelled (s : String) : ∃ t, Text.Core s.toList t ∧
    (∀ d, read s = .ok d ↔
      ∃ x : Spelling, x.text = t ∧ x.nanos = d.nanos ∧ d.nanos < 2 ^ 64) ∧
    (∀ e, read s = .error e ↔
      (∀ x : Spelling, x.text = t → 2 ^ 64 ≤ x.nanos) ∧ e.text.toList = t) := by
  have core := Text.core_trim s.toList
  refine ⟨_, core, fun d => ?_, fun e => ?_⟩
  · rw [← trimmed?_eq_some_iff core.first]
    simp only [read]
    cases trimmed? (Text.trim s.toList) <;> simp
  · rw [← trimmed?_eq_none_iff core.first]
    simp only [read]
    cases trimmed? (Text.trim s.toList) with
    | none =>
      obtain ⟨text⟩ := e
      simp only [Except.error.injEq, Invalid.mk.injEq, true_and]
      constructor
      · rintro rfl
        exact String.toList_ofList
      · intro eq
        rw [← eq, String.ofList_toList]
    | some => simp

end Duration

end Autoscaling
