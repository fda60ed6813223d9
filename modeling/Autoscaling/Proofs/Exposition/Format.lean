import Autoscaling.Proofs.Number.Decimals

/-!
The text format of metric collectors, as a collector reads it. A text is made of lines, each with a
line end of its own; a line tells what a metric means, of which kind it is, or gives a sample of it.
In a label the backslash, the quote and the line end are escaped.
-/

namespace Autoscaling.Exposition.Format

def unescape? : Char → Option Char
  | '\\' => some '\\'
  | '"' => some '"'
  | 'n' => some '\n'
  | _ => none

def label? : List Char → Option (List Char × List Char)
  | [] => none
  | '"' :: s => some ([], s)
  | '\\' :: e :: s => do
    let c ← unescape? e
    let (l, s) ← label? s
    some (c :: l, s)
  | c :: s =>
    if c = '\\' ∨ c = '\n' then none else (label? s).map fun (l, s) => (c :: l, s)

structure Sample where
  metric : String
  operation : String
  value : ℚ
deriving DecidableEq

inductive Line
  | help (metric text : String)
  | kind (metric kind : String)
  | sample (s : Sample)
deriving DecidableEq

def isNamePart (c : Char) : Bool := c.isAlphanum || c == '_' || c == ':'

def IsName (name : List Char) : Prop :=
  name.all isNamePart = true ∧ name.head?.any (!·.isDigit) = true

instance (name : List Char) : Decidable (IsName name) := inferInstanceAs (Decidable (_ ∧ _))

def metric? (s : List Char) : Option (String × List Char) :=
  let (name, rest) := s.span isNamePart
  if IsName name then some (String.ofList name, rest) else none

def after? (words : String) (s : List Char) : Option (List Char) :=
  if words.toList <+: s then some (s.drop words.toList.length) else none

def sample? (line : List Char) : Option Sample := do
  let (metric, s) ← metric? line
  let (operation, s) ← label? (← after? "\x7boperation=\"" s)
  let value ← Number.decimal? (← after? "\x7d " s)
  some ⟨metric, String.ofList operation, value⟩

def kinds : List String := ["counter", "gauge", "histogram", "summary", "untyped"]

def remark? (s : List Char) : Option (String × String) := do
  let (metric, s) ← metric? s
  some (metric, String.ofList (← after? " " s))

def line? (line : List Char) : Option Line :=
  match after? "# HELP " line with
  | some s => (remark? s).map fun (metric, text) => .help metric text
  | none =>
    match after? "# TYPE " line with
    | some s => (remark? s).bind fun (metric, kind) =>
        if kind ∈ kinds then some (.kind metric kind) else none
    | none => (sample? line).map .sample

def lines? : List Char → Option (List (List Char))
  | [] => some []
  | c :: s =>
    if c = '\n' then (lines? s).map ([] :: ·)
    else match lines? s with
      | some (l :: ls) => some ((c :: l) :: ls)
      | _ => none

def readLines (s : List Char) : Option (List Line) := (lines? s).bind (·.mapM line?)

def read? (s : String) : Option (List Line) := readLines s.toList

def Plain (operation : List Char) : Prop := ∀ c ∈ operation, c ≠ '"' ∧ c ≠ '\\' ∧ c ≠ '\n'

instance (operation : List Char) : Decidable (Plain operation) := List.decidableBAll _ operation

variable {operation label rest s s' l : List Char} {x : Line} {xs : List Line}

theorem label?_cons {c : Char} (quote : c ≠ '"') (slash : c ≠ '\\') (s : List Char) :
    label? (c :: s) = if c = '\n' then none else (label? s).map fun (l, s) => (c :: l, s) := by
  rw [label?]
  · simp [slash]
  · exact quote
  · exact fun _ _ eq => absurd eq slash

theorem label?_escape (e : Char) (s : List Char) :
    label? ('\\' :: e :: s) =
      (unescape? e).bind fun c => (label? s).map fun (l, s) => (c :: l, s) := by
  rw [label?]
  cases unescape? e with
  | none => rfl
  | some c => cases label? s <;> rfl

theorem label?_plain (plain : Plain operation) (rest : List Char) :
    label? (operation ++ '"' :: rest) = some (operation, rest) := by
  induction operation with
  | nil => rfl
  | cons c operation ih =>
    obtain ⟨here, later⟩ := List.forall_mem_cons.1 plain
    rw [List.cons_append, label?_cons here.1 here.2.1, if_neg here.2.2, ih later]
    rfl

theorem label?_append (read : label? s = some (label, rest)) (s' : List Char) :
    label? (s ++ s') = some (label, rest ++ s') := by
  fun_induction label? s generalizing label with
  | case1 => cases read
  | case2 s =>
    cases read
    rfl
  | case3 e s ih =>
    obtain ⟨c, escape, read⟩ := Option.bind_eq_some_iff.1 read
    obtain ⟨⟨l, r⟩, inner, eq⟩ := Option.bind_eq_some_iff.1 read
    cases eq
    rw [List.cons_append, List.cons_append, label?_escape, escape, Option.bind_some, ih inner]
    rfl
  | case4 => cases read
  | case5 c s quote slash plain ih =>
    obtain ⟨⟨l, r⟩, inner, eq⟩ := Option.map_eq_some_iff.1 read
    cases eq
    rw [not_or] at plain
    rw [List.cons_append, label?_cons (quote ·) plain.1, if_neg plain.2, ih inner]
    rfl

theorem head_label? {c d : Char} (quote : c ≠ '"') (slash : c ≠ '\\')
    (read : label? (c :: s) = some (d :: label, rest)) :
    d = c ∧ c ≠ '\n' ∧ label? s = some (label, rest) := by
  rw [label?_cons quote slash] at read
  split at read
  · cases read
  · next whole =>
    obtain ⟨⟨l, r⟩, inner, eq⟩ := Option.map_eq_some_iff.1 read
    cases eq
    exact ⟨rfl, whole, inner⟩

theorem head_label?_escape {e d : Char} (read : label? ('\\' :: e :: s) = some (d :: label, rest)) :
    unescape? e = some d ∧ label? s = some (label, rest) := by
  rw [label?_escape] at read
  obtain ⟨c, escape, read⟩ := Option.bind_eq_some_iff.1 read
  obtain ⟨⟨l, r⟩, inner, eq⟩ := Option.map_eq_some_iff.1 read
  cases eq
  exact ⟨escape, inner⟩

theorem eq_of_unescape? {e : Char} (escape : unescape? e = some '\\') : e = '\\' := by
  unfold unescape? at escape
  split at escape
  · rfl
  all_goals simp at escape

theorem label?_ne_backslashes (rest rest' : List Char) : ∀ (operation : List Char) (n : Nat),
    label? (operation ++ '"' :: rest) ≠
      some (List.replicate (n + 1) '\\' ++ operation, rest')
  | [], n => fun read => by cases read
  | c :: later, n => fun read => by
    rw [List.replicate_succ, List.cons_append, List.cons_append] at read
    by_cases quote : c = '"'
    · rw [quote] at read
      cases read
    · by_cases slash : c = '\\'
      · subst slash
        cases later with
        | nil => exact absurd (head_label?_escape read).1 (by decide)
        | cons e later =>
          obtain ⟨escape, inner⟩ := head_label?_escape read
          cases eq_of_unescape? escape
          refine label?_ne_backslashes rest rest' later (n + 1) (inner.trans ?_)
          simp [List.replicate_succ']
      · exact slash (head_label? quote slash read).1.symm

theorem plain_of_label? (read : label? (operation ++ '"' :: rest) = some (operation, s)) :
    Plain operation := by
  induction operation with
  | nil => exact fun _ mem => nomatch mem
  | cons c later ih =>
    by_cases quote : c = '"'
    · rw [quote] at read
      cases read
    · by_cases slash : c = '\\'
      · subst slash
        cases later with
        | nil => exact absurd (head_label?_escape read).1 (by decide)
        | cons e later =>
          obtain ⟨escape, inner⟩ := head_label?_escape read
          cases eq_of_unescape? escape
          exact absurd inner (label?_ne_backslashes rest s later 0)
      · obtain ⟨-, whole, inner⟩ := head_label? quote slash read
        exact List.forall_mem_cons.2 ⟨⟨quote, slash, whole⟩, ih inner⟩

variable {metric kind : String}

theorem metric?_append {name : List Char} (named : IsName name) {c : Char}
    (stop : isNamePart c = false) (rest : List Char) :
    metric? (name ++ c :: rest) = some (String.ofList name, c :: rest) := by
  unfold metric?
  rw [Number.span_append (List.all_eq_true.1 named.1) (by simpa using stop)]
  exact if_pos named

@[simp] theorem after?_append (words : String) (s : List Char) :
    after? words (words.toList ++ s) = some s := by
  rw [after?, if_pos (List.prefix_append ..), List.drop_left]

theorem after?_cons_of_ne {words : String} {c d : Char} {cs : List Char}
    (eq : words.toList = c :: cs) (ne : c ≠ d) (s : List Char) : after? words (d :: s) = none :=
  if_neg fun pre => ne (List.cons_prefix_cons.1 (eq ▸ pre)).1

theorem remark?_append (named : IsName metric.toList) (text : String) :
    remark? (metric.toList ++ (" ".toList ++ text.toList)) = some (metric, text) := by
  have blank : metric? (metric.toList ++ (" ".toList ++ text.toList)) =
      some (metric, " ".toList ++ text.toList) :=
    (metric?_append named (c := ' ') (by decide) text.toList).trans (by rw [String.ofList_toList]; rfl)
  rw [remark?, blank, Option.bind_eq_bind, Option.bind_some]
  dsimp only
  rw [after?_append, Option.bind_eq_bind, Option.bind_some, String.ofList_toList]

theorem line?_help (named : IsName metric.toList) (text : String) :
    line? ("# HELP ".toList ++ (metric.toList ++ (" ".toList ++ text.toList))) =
      some (.help metric text) := by
  rw [line?, after?_append]
  dsimp only
  rw [remark?_append named, Option.map_some]

theorem line?_kind (named : IsName metric.toList) (known : kind ∈ kinds) :
    line? ("# TYPE ".toList ++ (metric.toList ++ (" ".toList ++ kind.toList))) =
      some (.kind metric kind) := by
  have other (s : List Char) : after? "# HELP " ("# TYPE ".toList ++ s) = none := rfl
  rw [line?, other, after?_append]
  dsimp only
  rw [remark?_append named, Option.bind_some, if_pos known]

theorem sample?_append {name : List Char} (named : IsName name) (rest : List Char) :
    sample? (name ++ ("\x7boperation=\"".toList ++ rest)) =
      (label? rest).bind fun (operation, rest) =>
        (after? "\x7d " rest).bind fun rest => (Number.decimal? rest).bind fun value =>
          some ⟨String.ofList name, String.ofList operation, value⟩ := by
  have brace : metric? (name ++ ("\x7boperation=\"".toList ++ rest)) =
      some (String.ofList name, "\x7boperation=\"".toList ++ rest) := by
    have first : "\x7boperation=\"".toList = '\x7b' :: "operation=\"".toList := rfl
    rw [first]
    exact metric?_append named (by decide) _
  simp only [sample?, brace, after?_append, Option.bind_eq_bind, Option.bind_some]

theorem line?_append {name : List Char} (named : IsName name) (rest : List Char) :
    line? (name ++ rest) = (sample? (name ++ rest)).map .sample := by
  obtain ⟨parts, first⟩ := named
  cases name with
  | nil => cases first
  | cons d name =>
    have ne : '#' ≠ d := by
      rintro rfl
      exact absurd (List.all_eq_true.1 parts '#' List.mem_cons_self) (by decide)
    have help : "# HELP ".toList = '#' :: " HELP ".toList := rfl
    have kind : "# TYPE ".toList = '#' :: " TYPE ".toList := rfl
    rw [List.cons_append, line?, after?_cons_of_ne help ne, after?_cons_of_ne kind ne]

theorem lines?_cons {l : List Char} (whole : '\n' ∉ l) (s : List Char) :
    lines? (l ++ '\n' :: s) = (lines? s).map (l :: ·) := by
  induction l with
  | nil => simp [lines?]
  | cons c l ih =>
    rw [List.mem_cons, not_or] at whole
    rw [List.cons_append, lines?, if_neg (Ne.symm whole.1), ih whole.2]
    cases lines? s <;> rfl

theorem exists_of_lines? {ls : List (List Char)} (read : lines? s = some (l :: ls)) :
    ∃ s', s = l ++ '\n' :: s' ∧ '\n' ∉ l ∧ lines? s' = some ls := by
  induction s generalizing l ls with
  | nil => cases read
  | cons c s ih =>
    rw [lines?] at read
    split at read
    · next ends =>
      obtain ⟨ls', read, eq⟩ := Option.map_eq_some_iff.1 read
      cases eq
      exact ⟨s, by rw [ends]; rfl, List.not_mem_nil, read⟩
    · next goes =>
      split at read
      · next l' ls' read' =>
        cases read
        obtain ⟨s', rfl, whole, read⟩ := ih read'
        exact ⟨s', rfl, List.not_mem_cons_of_ne_of_not_mem (Ne.symm goes) whole, read⟩
      · cases read

theorem readLines_cons (whole : '\n' ∉ l) (s : List Char) :
    readLines (l ++ '\n' :: s) = (line? l).bind fun x => (readLines s).map (x :: ·) := by
  rw [readLines, lines?_cons whole, readLines]
  cases lines? s with
  | none => cases line? l <;> rfl
  | some ls =>
    rw [Option.map_some, Option.bind_some, Option.bind_some, List.mapM_cons]
    cases line? l with
    | none => rfl
    | some x => cases ls.mapM line? <;> rfl

theorem exists_of_readLines (read : readLines s = some (x :: xs)) :
    ∃ l s', s = l ++ '\n' :: s' ∧ '\n' ∉ l ∧ line? l = some x ∧ readLines s' = some xs := by
  obtain ⟨ls, lines, read⟩ := Option.bind_eq_some_iff.1 read
  cases ls with
  | nil => cases read
  | cons l ls =>
    obtain ⟨s', eq, whole, lines⟩ := exists_of_lines? lines
    rw [List.mapM_cons] at read
    obtain ⟨x', here, read⟩ := Option.bind_eq_some_iff.1 read
    obtain ⟨xs', later, same⟩ := Option.bind_eq_some_iff.1 read
    cases same
    exact ⟨l, s', eq, whole, here, by rw [readLines, lines]; exact later⟩

theorem exists_of_readLines_append (whole : '\n' ∉ l) (read : readLines (l ++ s) = some (x :: xs)) :
    ∃ l' s', s = l' ++ '\n' :: s' ∧ line? (l ++ l') = some x := by
  obtain ⟨first, s', eq, -, here, -⟩ := exists_of_readLines read
  obtain ⟨l', rfl, rest⟩ | ⟨cut, rfl, rest⟩ := List.append_eq_append_iff.1 eq
  · exact ⟨l', s', rest, here⟩
  · cases cut with
    | nil => exact ⟨[], s', rest.symm, by simpa using here⟩
    | cons c cut =>
      cases rest
      exact absurd (List.mem_append_right first List.mem_cons_self) whole

end Autoscaling.Exposition.Format
