import Autoscaling.Proofs.Json.Numerals
import Autoscaling.Proofs.Json.Readable
import Autoscaling.Proofs.Json.Strings

namespace Autoscaling.Json

open Number

section

variable (f : Binary64 → Option Binary64)

mutual

/-- The tree with another double in the place of each, if there is one for each. -/
def mapFloats : Json → Option Json
  | .float x => (f x).map .float
  | .array xs => (mapElements xs).map .array
  | .object ms => (mapMembers ms).map .object
  | x => some x

def mapElements : List Json → Option (List Json)
  | [] => some []
  | x :: xs => do
    let x ← mapFloats x
    let xs ← mapElements xs
    some (x :: xs)

def mapMembers : List (String × Json) → Option (List (String × Json))
  | [] => some []
  | (name, x) :: ms => do
    let x ← mapFloats x
    let ms ← mapMembers ms
    some ((name, x) :: ms)

end

end

namespace Reader

variable {convert : Conversion} {wanted : String → Bool} {s rest : List Char} {depth fuel : Nat}
  {x : Json} {xs : List Json} {ms : List (String × Json)}

theorem head_of_whole {r : List Char × List Char} (read : whole s = some r) :
    ∃ c s', s = c :: s' ∧ c.isDigit = true := by
  unfold whole at read
  split at read
  · exact ⟨_, _, rfl, rfl⟩
  · cases s with
    | nil => cases read
    | cons c s =>
      by_cases digit : c.isDigit = true
      · exact ⟨c, s, rfl, digit⟩
      · simp [digits1, digits, List.span_eq_takeWhile_dropWhile, digit] at read

theorem head_of_number {r : Json × List Char} (read : number convert s = some r) :
    ∃ c s', s = c :: s' ∧ (c = '-' ∨ c.isDigit = true) := by
  unfold number at read
  split at read
  · exact ⟨_, _, rfl, .inl rfl⟩
  · obtain ⟨_, numeral, -⟩ := Option.bind_eq_some_iff.1 read
    obtain ⟨_, whole, -⟩ := Option.bind_eq_some_iff.1 numeral
    obtain ⟨c, s', eq, digit⟩ := head_of_whole whole
    exact ⟨c, s', eq, .inr digit⟩

theorem value_quote (fuel depth : Nat) (s : List Char) : value convert (fuel + 1) depth ('"' :: s) =
    (stringBody fuel [] s).map fun (x, s) => (.string x, s) := rfl

theorem value_bracket (fuel depth : Nat) (s : List Char) :
    value convert (fuel + 1) (depth + 1) ('[' :: s) = match skip s with
      | ']' :: s => some (.array [], s)
      | s => (elements convert fuel depth s).map fun (xs, s) => (.array xs, s) := rfl

theorem value_brace (fuel depth : Nat) (s : List Char) :
    value convert (fuel + 1) (depth + 1) ('\x7b' :: s) = match skip s with
      | '\x7d' :: s => some (.object [], s)
      | s => (members convert fuel depth s).map fun (ms, s) => (.object ms, s) := rfl

theorem value_digit {c : Char} (start : c = '-' ∨ c.isDigit = true) :
    value convert (fuel + 1) depth (c :: s) = number convert (c :: s) := by
  unfold value
  split
  all_goals simp_all

theorem skip_of_ne {c : Char} (other : c ≠ ' ' ∧ c ≠ '\t' ∧ c ≠ '\n' ∧ c ≠ '\r') (s : List Char) :
    skip (c :: s) = c :: s := by
  simp [skip, other]

/-- A text that neither a blank nor the end of an array opens. -/
def Opens (s : List Char) : Prop :=
  ∃ c s', s = c :: s' ∧ (c ≠ ' ' ∧ c ≠ '\t' ∧ c ≠ '\n' ∧ c ≠ '\r') ∧ c ≠ ']'

theorem Opens.skip_append (opens : Opens s) (rest : List Char) : skip (s ++ rest) = s ++ rest := by
  obtain ⟨c, s, rfl, other, -⟩ := opens
  exact skip_of_ne other _

theorem opens_of_number {r : Json × List Char} (read : number convert s = some r) : Opens s := by
  obtain ⟨c, s, rfl, start⟩ := head_of_number read
  have other : ∀ d : Char, d ≠ '-' → d.isDigit = false → c ≠ d := by
    rintro d minus digit rfl
    exact start.elim minus (by rw [digit]; exact Bool.false_ne_true)
  refine ⟨c, s, rfl, ⟨?_, ?_, ?_, ?_⟩, ?_⟩
  all_goals exact other _ (by decide) (by decide)

/-- The text of the value is read as the value, but for its doubles. -/
structure Rereads (convert : Conversion) (depth : Nat) (x : Json) : Prop where
  opens : Opens (write x).toList
  value : ∀ {fuel rest}, (write x).toList.length ≤ fuel → (∀ c ∈ rest.head?, Ends c) →
    value convert fuel depth ((write x).toList ++ rest) =
      (x.mapFloats convert.back?).map (·, rest)

theorem opens_writeElements (some : xs ≠ []) (all : ∀ x ∈ xs, Rereads convert depth x) :
    Opens (writeElements xs).toList := by
  obtain ⟨x, xs, rfl⟩ := List.exists_cons_of_ne_nil some
  obtain ⟨c, s, eq, other⟩ := (all x List.mem_cons_self).opens
  cases xs with
  | nil => exact ⟨c, s, eq, other⟩
  | cons y ys => exact ⟨c, s ++ ',' :: (writeElements (y :: ys)).toList, by simp [eq], other⟩

theorem elements_write (some : xs ≠ []) (all : ∀ x ∈ xs, Rereads convert depth x)
    (rest : List Char) (enough : (writeElements xs).toList.length < fuel) :
    elements convert fuel depth ((writeElements xs).toList ++ ']' :: rest) =
      (mapElements convert.back? xs).map (·, rest) := by
  induction xs generalizing fuel with
  | nil => exact absurd rfl some
  | cons x xs ih =>
    obtain ⟨here, later⟩ := List.forall_mem_cons.1 all
    obtain ⟨fuel, rfl⟩ := Nat.exists_eq_succ_of_ne_zero (Nat.ne_of_gt (Nat.zero_lt_of_lt enough))
    cases xs with
    | nil =>
      rw [writeElements_singleton] at enough ⊢
      rw [elements, here.value (Nat.le_of_lt_succ enough) (by rintro c ⟨⟩; decide), mapElements]
      cases mapFloats convert.back? x <;> rfl
    | cons y ys =>
      have text : (writeElements (x :: y :: ys)).toList =
          (write x).toList ++ ',' :: (writeElements (y :: ys)).toList := by
        simp
      rw [text, List.length_append, List.length_cons] at enough
      have next : elements convert fuel depth (_ ++ ']' :: rest) = _ :=
        ih (List.cons_ne_nil y ys) later (by omega)
      have opens := (opens_writeElements (List.cons_ne_nil y ys) later).skip_append (']' :: rest)
      rw [text, List.append_assoc, elements, here.value (by omega) (by rintro c ⟨⟩; decide),
        mapElements]
      cases mapFloats convert.back? x with
      | none => rfl
      | some x' =>
        simp only [Option.bind_eq_bind, Option.map_some, Option.bind_some, List.cons_append,
          skip_of_ne (c := ',') (by decide), opens, next, Option.map_bind, Option.bind_map,
          Function.comp_def]

theorem toList_writeString (t : String) :
    (writeString t).toList = '"' :: (t.toList.flatMap escape ++ ['"']) := by
  simp [writeString]

def memberText (m : String × Json) : List Char :=
  '"' :: (m.1.toList.flatMap escape ++ '"' :: ':' :: (write m.2).toList)

theorem members_eq (fuel : Nat) :
    ∀ s, members convert fuel depth s = selectMembers convert (fun _ => true) fuel depth s := by
  induction fuel with
  | zero => exact fun _ => rfl
  | succ fuel ih =>
    intro s
    cases s with
    | nil => rfl
    | cons c s =>
      by_cases quote : c = '"'
      · subst quote
        simp only [members, selectMembers, selectMember, ih, if_true, Option.bind_eq_bind,
          Option.bind_map, Function.comp_def, List.singleton_append] <;> rfl
      · simp [members, selectMembers, quote]

def membersAfter (convert : Conversion) (wanted : String → Bool) (fuel depth : Nat)
    (m : String × Json) (s : List Char) : Option (List (String × Json) × List Char) :=
  match skip s with
  | ',' :: s => do
    let (ms, s) ← selectMembers convert wanted fuel depth (skip s)
    some (m :: ms, s)
  | '}' :: s => some ([m], s)
  | _ => none

theorem selectMembers_memberText {m : String × Json} (here : Rereads convert depth m.2)
    (chosen : wanted m.1 = true) (enough : (memberText m).length ≤ fuel)
    (stop : ∀ c ∈ rest.head?, Ends c) :
    selectMembers convert wanted (fuel + 1) depth (memberText m ++ rest) =
      (m.2.mapFloats convert.back?).bind fun x =>
        membersAfter convert wanted fuel depth (m.1, x) rest := by
  obtain ⟨name, x⟩ := m
  simp only [memberText, List.length_cons, List.length_append] at enough
  have value : value convert fuel depth ((write x).toList ++ rest) = _ :=
    here.value (by dsimp only; omega) stop
  rw [memberText, List.cons_append, List.append_assoc, List.cons_append, List.cons_append,
    selectMembers, stringBody_flatMap (by dsimp only; omega)]
  simp only [Option.bind_eq_bind, Option.bind_some, skip_of_ne (c := ':') (by decide),
    here.opens.skip_append, value, selectMember, chosen, if_true, List.reverse_nil,
    List.nil_append, String.ofList_toList, Option.bind_map, Function.comp_def]
  rfl

theorem writeMembers_cons (m : String × Json) (ms : List (String × Json)) :
    (writeMembers (m :: ms)).toList =
      memberText m ++ if ms = [] then [] else ',' :: (writeMembers ms).toList := by
  cases ms with
  | nil => simp [toList_writeString, memberText]
  | cons m' ms => simp [toList_writeString, memberText]

theorem opens_writeMembers (some : ms ≠ []) : Opens (writeMembers ms).toList := by
  obtain ⟨m, ms, rfl⟩ := List.exists_cons_of_ne_nil some
  rw [writeMembers_cons]
  exact ⟨'"', _, rfl, by decide, by decide⟩

theorem selectMembers_write (some : ms ≠ []) (all : ∀ m ∈ ms, Rereads convert depth m.2)
    (chosen : ∀ m ∈ ms, wanted m.1 = true) (rest : List Char)
    (enough : (writeMembers ms).toList.length < fuel) :
    selectMembers convert wanted fuel depth ((writeMembers ms).toList ++ '}' :: rest) =
      (mapMembers convert.back? ms).map (·, rest) := by
  induction ms generalizing fuel with
  | nil => exact absurd rfl some
  | cons m ms ih =>
    obtain ⟨here, later⟩ := List.forall_mem_cons.1 all
    obtain ⟨own, others⟩ := List.forall_mem_cons.1 chosen
    obtain ⟨fuel, rfl⟩ := Nat.exists_eq_succ_of_ne_zero (Nat.ne_of_gt (Nat.zero_lt_of_lt enough))
    rw [writeMembers_cons] at enough ⊢
    cases ms with
    | nil =>
      rw [if_pos rfl, List.append_nil] at enough ⊢
      rw [selectMembers_memberText here own (Nat.le_of_lt_succ enough)
        (by rintro c ⟨⟩; decide), mapMembers]
      cases mapFloats convert.back? m.2 <;> rfl
    | cons m' ms =>
      rw [if_neg (List.cons_ne_nil m' ms), List.length_append, List.length_cons] at enough
      have next : selectMembers convert wanted fuel depth (_ ++ '}' :: rest) = _ :=
        ih (List.cons_ne_nil m' ms) later others (by omega)
      have opens := (opens_writeMembers (List.cons_ne_nil m' ms)).skip_append ('}' :: rest)
      rw [if_neg (List.cons_ne_nil m' ms), List.append_assoc,
        selectMembers_memberText here own (by omega) (by rintro c ⟨⟩; decide), mapMembers]
      cases mapFloats convert.back? m.2 with
      | none => rfl
      | some x =>
        rw [Option.bind_some, List.cons_append, membersAfter, skip_of_ne (by decide)]
        simp only [opens, next, Option.bind_eq_bind, Option.bind_some, Option.bind_map,
          Option.map_bind, Option.map_some, Function.comp_def]

theorem rereads_of_number {y : Json} (some : x.mapFloats Conversion.exact.back? = some y)
    (text : ∀ {convert rest}, (∀ c ∈ rest.head?, Ends c) →
      number convert ((write x).toList ++ rest) = (x.mapFloats convert.back?).map (·, rest)) :
    Rereads convert depth x := by
  have alone : number .exact ((write x).toList ++ []) = _ := text fun _ mem => nomatch mem
  rw [List.append_nil, some] at alone
  obtain ⟨c, s, eq, start⟩ := head_of_number alone
  refine ⟨opens_of_number alone, fun {fuel rest} enough stop => ?_⟩
  rw [← text stop]
  rw [eq] at enough ⊢
  obtain ⟨fuel, rfl⟩ := Nat.exists_eq_succ_of_ne_zero (Nat.ne_of_gt (Nat.zero_lt_of_lt enough))
  exact value_digit start

theorem rereads_string (t : String) : Rereads convert depth (.string t) where
  opens := ⟨'"', _, by rw [write_string, toList_writeString], by decide, by decide⟩
  value enough stop := by
    rw [write_string, toList_writeString] at enough ⊢
    simp only [List.length_cons, List.length_append, List.length_nil] at enough
    obtain ⟨fuel, rfl⟩ := Nat.exists_eq_succ_of_ne_zero (Nat.ne_of_gt (Nat.zero_lt_of_lt enough))
    rw [List.cons_append, List.append_assoc, value_quote, List.singleton_append,
      stringBody_flatMap (by omega), List.reverse_nil, List.nil_append, String.ofList_toList]
    rfl

theorem value_opens (opens : Opens s) :
    value convert (fuel + 1) (depth + 1) ('[' :: s) =
      (elements convert fuel depth s).map fun (xs, s) => (.array xs, s) := by
  obtain ⟨c, s, rfl, other, close⟩ := opens
  rw [value_bracket, skip_of_ne other]
  split
  · next eq => exact absurd (List.head_eq_of_cons_eq eq) close
  · rfl

theorem value_quoted (s : List Char) :
    value convert (fuel + 1) (depth + 1) ('\x7b' :: '"' :: s) =
      (members convert fuel depth ('"' :: s)).map fun (ms, s) => (.object ms, s) := by
  rw [value_brace, skip_of_ne (by decide)]
  rfl

theorem rereads_array (all : ∀ x ∈ xs, Rereads convert depth x) :
    Rereads convert (depth + 1) (.array xs) := by
  have text : (write (.array xs)).toList = '[' :: ((writeElements xs).toList ++ [']']) := by
    simp
  refine ⟨⟨'[', _, text, by decide, by decide⟩, fun {fuel rest} enough stop => ?_⟩
  rw [text] at enough ⊢
  simp only [List.length_cons, List.length_append, List.length_nil] at enough
  obtain ⟨fuel, rfl⟩ := Nat.exists_eq_succ_of_ne_zero (Nat.ne_of_gt (Nat.zero_lt_of_lt enough))
  rw [List.cons_append, List.append_assoc, List.singleton_append, mapFloats]
  cases xs with
  | nil => rfl
  | cons x xs =>
    have some := List.cons_ne_nil x xs
    obtain ⟨c, s, eq, other⟩ := opens_writeElements some all
    rw [value_opens ⟨c, _, by rw [eq]; rfl, other⟩, elements_write some all rest (by omega),
      Option.map_map, Option.map_map]
    rfl

theorem rereads_object (all : ∀ m ∈ ms, Rereads convert depth m.2) :
    Rereads convert (depth + 1) (.object ms) := by
  have text : (write (.object ms)).toList = '\x7b' :: ((writeMembers ms).toList ++ ['\x7d']) := by
    simp
  refine ⟨⟨'\x7b', _, text, by decide, by decide⟩, fun {fuel rest} enough stop => ?_⟩
  rw [text] at enough ⊢
  simp only [List.length_cons, List.length_append, List.length_nil] at enough
  obtain ⟨fuel, rfl⟩ := Nat.exists_eq_succ_of_ne_zero (Nat.ne_of_gt (Nat.zero_lt_of_lt enough))
  rw [List.cons_append, List.append_assoc, List.singleton_append, mapFloats]
  cases ms with
  | nil => rfl
  | cons m ms =>
    have some := List.cons_ne_nil m ms
    have read : selectMembers convert (fun _ => true) fuel depth _ = _ :=
      selectMembers_write some all (fun _ _ => rfl) rest (by omega)
    rw [← members_eq] at read
    rw [writeMembers_cons, memberText, List.cons_append, List.cons_append] at read ⊢
    rw [value_quoted, read, Option.map_map, Option.map_map]
    rfl

theorem rereads_null : Rereads convert depth .null := by
  have text : (write .null).toList = ['n', 'u', 'l', 'l'] := by simp
  refine ⟨⟨'n', _, text, by decide, by decide⟩, fun {fuel rest} enough stop => ?_⟩
  rw [text] at enough ⊢
  obtain ⟨fuel, rfl⟩ := Nat.exists_eq_succ_of_ne_zero (Nat.ne_of_gt (Nat.zero_lt_of_lt enough))
  rfl

theorem rereads_boolean (b : Bool) : Rereads convert depth (.boolean b) := by
  have text : (write (.boolean b)).toList =
      if b then ['t', 'r', 'u', 'e'] else ['f', 'a', 'l', 's', 'e'] := by
    cases b <;> simp
  cases b
  all_goals
    refine ⟨⟨_, _, text, by decide, by decide⟩, fun {fuel rest} enough stop => ?_⟩
    rw [text] at enough ⊢
    obtain ⟨fuel, rfl⟩ := Nat.exists_eq_succ_of_ne_zero (Nat.ne_of_gt (Nat.zero_lt_of_lt enough))
    rfl

theorem rereads (convert : Conversion) (readable : Readable depth x) : Rereads convert depth x := by
  induction readable with
  | null => exact rereads_null
  | boolean b => exact rereads_boolean b
  | integer low high =>
    exact rereads_of_number rfl fun stop => by
      rw [write_integer]
      exact number_integer low high stop
  | @float _ x finite =>
    have back : (Json.float x).mapFloats Conversion.exact.back? = some (.float x) := by
      rw [mapFloats, Conversion.back?_exact finite]
      rfl
    exact rereads_of_number back fun stop => by
      rw [write_float, mapFloats, number_float finite stop, Option.map_map]
      rfl
  | string t => exact rereads_string t
  | array _ ih => exact rereads_array ih
  | object _ ih => exact rereads_object ih

theorem selection_quoted (s : List Char) : selection convert wanted ('\x7b' :: '"' :: s) =
    (selectMembers convert wanted (2 * ('\x7b' :: '"' :: s).length + 2) (nesting - 1)
      ('"' :: s)).bind fun (ms, rest) => if (skip rest).isEmpty then some ms else none := rfl

end Reader

variable {convert : Conversion}

theorem read?_write {x : Json} (readable : Readable Reader.nesting x) :
    read? convert x.write = x.mapFloats convert.back? := by
  have rereads := Reader.rereads convert readable
  have read : Reader.value convert (2 * x.write.toList.length + 2) Reader.nesting _ = _ :=
    rereads.value (by omega) fun c (mem : c ∈ [].head?) => nomatch mem
  have skipped := rereads.opens.skip_append []
  rw [List.append_nil] at read skipped
  rw [read?, Reader.document, skipped, read]
  cases x.mapFloats convert.back? <;> rfl

theorem select?_write {wanted : String → Bool} {ms : List (String × Json)} (some : ms ≠ [])
    (readable : ∀ m ∈ ms, Readable (Reader.nesting - 1) m.2)
    (chosen : ∀ m ∈ ms, wanted m.1 = true) :
    select? convert wanted (write (.object ms)) = mapMembers convert.back? ms := by
  have text : (write (.object ms)).toList =
      '\x7b' :: ((writeMembers ms).toList ++ ['\x7d']) := by
    simp
  have enough : (writeMembers ms).toList.length < 2 * (write (.object ms)).toList.length + 2 := by
    rw [text]
    simp
    omega
  have read := Reader.selectMembers_write some
    (fun m mem => Reader.rereads convert (readable m mem)) chosen [] enough
  obtain ⟨m, ms, rfl⟩ := List.exists_cons_of_ne_nil some
  rw [select?, text]
  rw [text] at read
  rw [Reader.writeMembers_cons, Reader.memberText, List.cons_append, List.cons_append] at read ⊢
  rw [Reader.selection_quoted, read]
  cases mapMembers convert.back? (m :: ms) <;> rfl

end Autoscaling.Json
