import Autoscaling.Proofs.Exposition.Format
import Autoscaling.Proofs.Exposition.Seconds

namespace Autoscaling.Exposition

open Format Number

namespace Series

variable {s : Series} {t : OperationTiming} {timings : List OperationTiming}

def shows (s : Series) (t : OperationTiming) : Sample := ⟨s.name, t.operation, s.value t⟩

def content (s : Series) (timings : List OperationTiming) : List Line :=
  .help s.name s.help :: .kind s.name s.kind :: timings.map (.sample ∘ s.shows)

def helpLine (s : Series) : List Char :=
  "# HELP ".toList ++ (s.name.toList ++ (" ".toList ++ s.help.toList))

def kindLine (s : Series) : List Char :=
  "# TYPE ".toList ++ (s.name.toList ++ (" ".toList ++ s.kind.toList))

def opening (s : Series) : List Char := s.name.toList ++ "\x7boperation=\"".toList

def closing (s : Series) (t : OperationTiming) : List Char := "\x7d ".toList ++ (s.sample t).toList

def sampleLine (s : Series) (t : OperationTiming) : List Char :=
  s.opening ++ (t.operation.toList ++ '"' :: s.closing t)

def sampleLines (s : Series) (timings : List OperationTiming) : List Char :=
  timings.flatMap fun t => s.sampleLine t ++ ['\n']

theorem toList_line (s : Series) (t : OperationTiming) :
    (s.line t).toList = s.sampleLine t ++ ['\n'] := by
  have quote : "\"\x7d ".toList = '"' :: "\x7d ".toList := rfl
  have newline : "\n".toList = ['\n'] := rfl
  simp only [line, sampleLine, opening, closing, String.toList_append, quote, newline,
    List.append_assoc, List.cons_append]

theorem sampleLines_cons (t : OperationTiming) (timings : List OperationTiming) (rest : List Char) :
    s.sampleLines (t :: timings) ++ rest =
      s.sampleLine t ++ '\n' :: (s.sampleLines timings ++ rest) := by
  simp [sampleLines]

theorem toList_render (s : Series) (timings : List OperationTiming) :
    (s.render timings).toList =
      s.helpLine ++ '\n' :: (s.kindLine ++ '\n' :: s.sampleLines timings) := by
  have kind : "\n# TYPE ".toList = '\n' :: "# TYPE ".toList := rfl
  have newline : "\n".toList = ['\n'] := rfl
  -- The equations of definitions that hold long literals are slow to make, hence `delta`.
  delta render helpLine kindLine sampleLines
  simp only [String.toList_append]
  rw [String.toList_join, List.flatMap_map, kind, newline]
  simp only [toList_line, List.append_assoc, List.cons_append, List.nil_append]

theorem isName_name (s : Series) : IsName s.name.toList := by cases s <;> decide

theorem kind_mem_kinds (s : Series) : s.kind ∈ kinds := by cases s <;> decide

theorem not_mem_of_isName {name : List Char} (named : IsName name) : '\n' ∉ name := fun mem =>
  absurd (List.all_eq_true.1 named.1 _ mem) (by decide)

theorem not_mem_helpLine (s : Series) : '\n' ∉ s.helpLine := by
  have help : '\n' ∉ s.help.toList := by cases s <;> decide
  exact List.not_mem_append (by decide) <|
    List.not_mem_append (not_mem_of_isName s.isName_name) <|
      List.not_mem_append (by decide) help

theorem not_mem_kindLine (s : Series) : '\n' ∉ s.kindLine := by
  have kind : '\n' ∉ s.kind.toList := by cases s <;> decide
  exact List.not_mem_append (by decide) <|
    List.not_mem_append (not_mem_of_isName s.isName_name) <|
      List.not_mem_append (by decide) kind

theorem not_mem_opening (s : Series) : '\n' ∉ s.opening :=
  List.not_mem_append (not_mem_of_isName s.isName_name) (by decide)

theorem not_mem_sample (s : Series) (t : OperationTiming) : '\n' ∉ (s.sample t).toList := by
  intro mem
  have digit : ∀ {c : Char}, c.isDigit = true ∨ c = '.' → c ≠ '\n' := by
    rintro _ h rfl
    exact absurd h (by decide)
  cases s with
  | calls =>
    rw [sample, Nat.toString_eq_ofList_toDigits, String.toList_ofList] at mem
    exact digit (.inl (isDigit_of_mem mem)) rfl
  | seconds | slowest =>
    rw [sample, sixPlaces_eq, String.toList_ofList] at mem
    exact digit (mem_placed mem) rfl

theorem not_mem_closing (s : Series) (t : OperationTiming) : '\n' ∉ s.closing t :=
  List.not_mem_append (by decide) (s.not_mem_sample t)

theorem not_mem_sampleLine (plain : Plain t.operation.toList) (s : Series) :
    '\n' ∉ s.sampleLine t := by
  have name : '\n' ∉ t.operation.toList := fun mem => (plain _ mem).2.2 rfl
  have quoted : '\n' ∉ '"' :: s.closing t :=
    List.not_mem_cons_of_ne_of_not_mem (by decide) (s.not_mem_closing t)
  exact List.not_mem_append s.not_mem_opening (List.not_mem_append name quoted)

theorem line?_opening (s : Series) (rest : List Char) :
    line? (s.opening ++ rest) = (label? rest).bind fun (operation, rest) =>
      (after? "\x7d " rest).bind fun rest => (decimal? rest).bind fun value =>
        some (.sample ⟨s.name, String.ofList operation, value⟩) := by
  delta opening
  rw [List.append_assoc, line?_append s.isName_name, sample?_append s.isName_name,
    String.ofList_toList]
  simp only [Option.map_bind, Option.map_some, Function.comp_def]

theorem line?_sampleLine (plain : Plain t.operation.toList) (s : Series) :
    line? (s.sampleLine t) = some (.sample (s.shows t)) := by
  delta sampleLine closing
  rw [line?_opening, label?_plain plain, Option.bind_some]
  dsimp only
  rw [after?_append, Option.bind_some, decimal?_sample, Option.bind_some, String.ofList_toList,
    shows]

theorem readLines_sampleLines (plain : ∀ t ∈ timings, Plain t.operation.toList) (s : Series)
    (rest : List Char) : readLines (s.sampleLines timings ++ rest) =
      (readLines rest).map (timings.map (.sample ∘ s.shows) ++ ·) := by
  induction timings with
  | nil => exact Option.map_id'.symm
  | cons t timings ih =>
    obtain ⟨here, later⟩ := List.forall_mem_cons.1 plain
    rw [sampleLines_cons, readLines_cons (not_mem_sampleLine here s), line?_sampleLine here,
      Option.bind_some, ih later, Option.map_map]
    rfl

theorem readLines_render (s : Series) (timings : List OperationTiming) (rest : List Char) :
    readLines ((s.render timings).toList ++ rest) =
      (readLines (s.sampleLines timings ++ rest)).map fun xs =>
        .help s.name s.help :: .kind s.name s.kind :: xs := by
  have help : line? s.helpLine = some (.help s.name s.help) := line?_help s.isName_name s.help
  have kind : line? s.kindLine = some (.kind s.name s.kind) :=
    line?_kind s.isName_name s.kind_mem_kinds
  rw [toList_render, List.append_assoc, List.cons_append, List.append_assoc, List.cons_append,
    readLines_cons s.not_mem_helpLine, help, Option.bind_some,
    readLines_cons s.not_mem_kindLine, kind, Option.bind_some, Option.map_map]
  rfl

theorem plain_of_readLines {xs : List Line} {rest : List Char}
    (read : readLines (s.sampleLine t ++ '\n' :: rest) = some (.sample (s.shows t) :: xs)) :
    Plain t.operation.toList := by
  delta sampleLine at read
  rw [List.append_assoc] at read
  obtain ⟨l, s', eq, here⟩ := exists_of_readLines_append s.not_mem_opening read
  rw [line?_opening] at here
  obtain ⟨⟨operation, after⟩, label, here⟩ := Option.bind_eq_some_iff.1 here
  obtain ⟨_, -, here⟩ := Option.bind_eq_some_iff.1 here
  obtain ⟨_, -, here⟩ := Option.bind_eq_some_iff.1 here
  have name : String.ofList operation = t.operation :=
    congrArg Sample.operation (Line.sample.inj (Option.some.inj here))
  have whole := label?_append label ('\n' :: s')
  rw [← eq, ← String.toList_ofList (l := operation), name, List.append_assoc] at whole
  exact plain_of_label? whole

theorem forall_plain_of_readLines {xs : List Line} {rest : List Char}
    (read : readLines (s.sampleLines timings ++ rest) =
      some (timings.map (.sample ∘ s.shows) ++ xs)) :
    ∀ t ∈ timings, Plain t.operation.toList := by
  induction timings with
  | nil => exact fun _ mem => nomatch mem
  | cons t timings ih =>
    rw [sampleLines_cons] at read
    have plain := plain_of_readLines read
    rw [readLines_cons (not_mem_sampleLine plain s), line?_sampleLine plain] at read
    obtain ⟨later, read, eq⟩ := Option.map_eq_some_iff.1 read
    cases eq
    exact List.forall_mem_cons.2 ⟨plain, ih read⟩

end Series

def contents (timings : List OperationTiming) : List Line := Series.all.flatMap (·.content timings)

/-- No operation has a name in which something would have to be escaped. -/
def Legible (timings : List OperationTiming) : Prop := ∀ t ∈ timings, Plain t.operation.toList

variable {timings others : List OperationTiming}

theorem length_contents (timings : List OperationTiming) :
    (contents timings).length = 6 + 3 * timings.length := by
  simp only [contents, Series.all, Series.content, List.flatMap_cons, List.flatMap_nil,
    List.length_append, List.length_cons, List.length_map, List.length_nil]
  omega

theorem toList_render (timings : List OperationTiming) :
    (render timings).toList = Series.all.flatMap fun s => (s.render timings).toList := by
  rw [render, String.toList_join, List.flatMap_map]

theorem readLines_flatMap (legible : Legible timings) (all : List Series) :
    readLines (all.flatMap fun s => (s.render timings).toList) =
      some (all.flatMap (·.content timings)) := by
  induction all with
  | nil => rfl
  | cons s all ih =>
    rw [List.flatMap_cons, s.readLines_render, s.readLines_sampleLines legible, ih]
    rfl

theorem Legible.read? (legible : Legible timings) :
    Format.read? (render timings) = some (contents timings) := by
  rw [Format.read?, toList_render, readLines_flatMap legible, contents]

theorem legible_of_read? (read : Format.read? (render timings) = some (contents timings)) :
    Legible timings := by
  rw [Format.read?, toList_render, Series.all, List.flatMap_cons, Series.readLines_render] at read
  obtain ⟨xs, read, eq⟩ := Option.map_eq_some_iff.1 read
  cases eq
  exact Series.forall_plain_of_readLines read

def brief (t : OperationTiming) : String × UInt64 := (t.operation, t.count)

theorem brief_eq (t : OperationTiming) :
    brief t = ((Series.calls.shows t).operation,
      UInt64.ofNat (Series.calls.shows t).value.num.toNat) := by
  simp [brief, Series.shows, Series.value]

theorem map_brief_of_contents (eq : contents timings = contents others) :
    timings.map brief = others.map brief := by
  have length : timings.length = others.length := by
    have lengths := congrArg List.length eq
    rw [length_contents, length_contents] at lengths
    omega
  have calls : Series.calls.content timings = Series.calls.content others :=
    (List.append_inj eq (by simp only [Series.content, List.length_cons, List.length_map, length])).1
  have samples : timings.map Series.calls.shows = others.map Series.calls.shows := by
    have lines := (List.cons.inj (List.cons.inj calls).2).2
    rw [← List.map_map, ← List.map_map] at lines
    exact List.map_injective_iff.2 (fun _ _ => Line.sample.inj) lines
  calc timings.map brief
      = (timings.map Series.calls.shows).map fun s =>
          (s.operation, UInt64.ofNat s.value.num.toNat) := by
        rw [List.map_map]
        exact List.map_congr_left fun t _ => brief_eq t
    _ = (others.map Series.calls.shows).map fun s =>
          (s.operation, UInt64.ofNat s.value.num.toNat) := by rw [samples]
    _ = others.map brief := by
        rw [List.map_map]
        exact List.map_congr_left fun t _ => (brief_eq t).symm

/-- The text has six lines and three a timing, and is read as what it tells, exactly if all names
are legible. Legible timings with other operations or other counts have other texts. -/
theorem read?_render_iff_legible (timings : List OperationTiming) :
    (contents timings).length = 6 + 3 * timings.length ∧
    (Format.read? (render timings) = some (contents timings) ↔ Legible timings) ∧
    ∀ others, Legible timings → Legible others → render timings = render others →
      timings.map brief = others.map brief := by
  refine ⟨length_contents timings, ⟨legible_of_read?, Legible.read?⟩, ?_⟩
  intro others legible legible' eq
  refine map_brief_of_contents (Option.some.inj ?_)
  rw [← legible.read?, eq, legible'.read?]

theorem map_brief_sameText :
    render [⟨"scale", 1, ⟨1, by decide⟩, ⟨1, by decide⟩⟩] =
      render [⟨"scale", 1, ⟨2, by decide⟩, ⟨2, by decide⟩⟩] ∧
    List.map brief [⟨"scale", 1, ⟨1, by decide⟩, ⟨1, by decide⟩⟩] =
      List.map brief [⟨"scale", 1, ⟨2, by decide⟩, ⟨2, by decide⟩⟩] := by
  have text : render [⟨"scale", 1, ⟨1, by decide⟩, ⟨1, by decide⟩⟩] =
      render [⟨"scale", 1, ⟨2, by decide⟩, ⟨2, by decide⟩⟩] := by decide +kernel
  have plain : Plain "scale".toList := by decide
  refine ⟨text, (read?_render_iff_legible _).2.2 _ ?_ ?_ text⟩
  · exact List.forall_mem_singleton.2 plain
  · exact List.forall_mem_singleton.2 plain

/-- With a quote in the name the label ends too early, and no text can be read beyond it. -/
theorem unread_quote :
    Format.read? (render [⟨"a\"b", 1, ⟨0, by decide⟩, ⟨0, by decide⟩⟩]) = none := by
  have line : line? (Series.calls.sampleLine ⟨"a\"b", 1, ⟨0, by decide⟩, ⟨0, by decide⟩⟩) = none := by
    decide +kernel
  rw [Format.read?, toList_render, Series.all, List.flatMap_cons, Series.readLines_render,
    Series.sampleLines_cons, readLines_cons (by decide +kernel), line]
  rfl

end Autoscaling.Exposition
