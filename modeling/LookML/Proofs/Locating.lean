import LookML.Proofs.Pointing

/-!
# Lines that paths lead to

The line of a path is searched for in the text alone, by the headers along the path.  Where each
of them is found on one line only, the path of a violation leads to the line that the violation
has by structure.
-/

namespace LookML

open Text List

namespace Lint

section Search

variable {α : Type} {test : Text → Option α} {line : Text} {lines : List Text}

theorem findLine?.go_append {front rest : List Text} {result : α}
    (earlier : ∀ other ∈ front, test other = none) (passes : test line = some result)
    (number : Nat) :
    go test number (front ++ line :: rest) = some (number + front.length, result) := by
  induction front generalizing number with
  | nil =>
    rw [nil_append, go, passes]
    rfl
  | cons other front ih =>
    rw [cons_append, go, earlier other mem_cons_self, length_cons,
      Nat.add_comm front.length, ← Nat.add_assoc]
    exact ih (forall_mem_cons.mp earlier).2 _

/-- The one line that passes a test is found from every line before it on. -/
theorem exists_findLine? {start number : Nat} (here : lines[number]? = some line)
    (passes : (test line).isSome = true)
    (unique : lines.countP (fun line => (test line).isSome) = 1) (before : start ≤ number) :
    ∃ result, findLine? test start lines = some (number, result) := by
  obtain ⟨result, passes⟩ := Option.isSome_iff_exists.mp passes
  obtain ⟨front, rest, rfl, length⟩ := exists_of_getElem? here
  rw [countP_append, countP_cons, passes] at unique
  have none_ : front.countP (fun line => (test line).isSome) = 0 := by
    simp at unique
    omega
  refine ⟨result, ?_⟩
  rw [findLine?, drop_append_of_le_length (length.symm ▸ before), findLine?.go_append ?_ passes]
  · rw [length_drop, length, Nat.add_sub_cancel' before]
  · intro other member
    simpa using countP_eq_zero.mp none_ other (mem_of_mem_drop member)

end Search

variable {properties : List Text} {settings : Settings} {text : Text} {violation : Violation}

/-- The search for a header passes on the line where it is read as one. -/
theorem exists_headerIn? {number : Nat} {type name : Text}
    (opens : (Lexed.ofText properties text).Opens number type name) (named : name ≠ []) :
    ∃ line, text.lines[number]? = some line ∧ (headerIn? true type name line).isSome = true := by
  obtain ⟨line, name?, here, shape, same⟩ := opens
  obtain rfl : name? = some name := by
    cases name? with
    | none => exact absurd same.symm named
    | some other => exact congrArg some same
  have raw := Lexed.getElem?_text here
  obtain ⟨level, read⟩ := (Lexed.run_ofText properties text).exists_of_mem (mem_of_getElem? here)
  rw [read.eq_outside (by simp [shape]) (by simp [shape])] at read
  have reading := read.reading
  rw [shape] at reading
  obtain ⟨lead, header, tail, whole, blank, isHeader, -⟩ :=
    reading.exists_header (feedless_lines text _ (mem_of_getElem? raw))
  refine ⟨line.text, raw, ?_⟩
  rw [whole, headerIn?_append true blank isHeader named tail]
  rfl

/-- The headers along the path of a violation are those of its subject and of what is around it. -/
theorem Breach.pathHeaders_eq {model : Model} {subject : Subject} (breach : Breach model violation)
    (about : violation.subject? = some subject) :
    pathHeaders violation.path = [(subject.type, subject.name)] ∨
      pathHeaders violation.path =
          [(subject.owner.type, subject.owner.name), (subject.type, subject.name)] ∧
        subject.owner.type ≠ subject.type := by
  have apart (kind : FieldKind) : "view".toList ≠ kind.word.toList := by
    cases kind <;> decide
  cases breach with
  | missingKey =>
    cases about
    exact .inl rfl
  | misnamedKey =>
    cases about
    exact .inr ⟨rfl, apart .dimension⟩
  | inJoin =>
    cases about
    exact .inr ⟨rfl, show "explore".toList ≠ "join".toList by decide⟩
  | inField _ _ _ known isCollection =>
    cases about
    obtain ⟨kind, -, rfl, nested, -⟩ := exists_kind_of_mem isCollection
    refine .inr ⟨?_, apart kind⟩
    simp only [crossViewReference, pathHeaders, nested]
    rfl

/-- The path leads to the line of a violation if the search finds each header along it where it
is read as one. -/
theorem Breach.line_eq (breach : Breach (.ofDocument (.ofText properties text)) violation)
    (finds : ∀ {type name : Text} {start place : Nat}, start ≤ place →
      (Lexed.ofText properties text).Opens place type name →
      (type, name) ∈ pathHeaders violation.path →
      ∃ result, findLine? (headerIn? true type name) start text.lines = some (place, result)) :
    violation.line = some (lineOfPath text violation.path : Int) := by
  obtain ⟨subject, number, about, line, stands⟩ := breach.standsAt
  rw [line, lineOfPath]
  rcases breach.pathHeaders_eq about with one | ⟨two, apart⟩
  · obtain ⟨_, here⟩ := finds (Nat.zero_le _) stands.header (by simp [one])
    rw [one, followHeaders, here]
    rfl
  · obtain ⟨block, -, holds, opens⟩ := stands.owner
    -- The two headers are of different types, so they stand on different lines.
    have before : block.startLine < number := by
      refine Nat.lt_of_le_of_ne holds.1 fun same => apart ?_
      obtain ⟨outer, _, isOuter, outerShape, -⟩ := opens
      obtain ⟨inner, _, isInner, innerShape, -⟩ := stands.header
      rw [same, isInner] at isOuter
      cases isOuter
      exact Option.some.inj (Shape.blockOpen.inj (outerShape.symm.trans innerShape)).1
    obtain ⟨_, first⟩ := finds (Nat.zero_le _) opens (by simp [two])
    obtain ⟨_, second⟩ := finds before stands.header (by simp [two])
    rw [two, followHeaders, first]
    dsimp only
    rw [followHeaders, second]
    rfl

/-- The path of a violation leads to its line, if the headers along it have names and are found on
one line each. -/
theorem line_eq_lineOfPath (structural : settings.lint.useFallbackReader = false)
    (reported : violation ∈ (lintText settings text).violations)
    (named : ∀ header ∈ pathHeaders violation.path, header.2 ≠ [])
    (unique : ∀ header ∈ pathHeaders violation.path,
      text.lines.countP (fun line => (headerIn? true header.1 header.2 line).isSome) = 1) :
    violation.line = some (lineOfPath text violation.path : Int) := by
  obtain ⟨found, breach, rfl⟩ := exists_breach structural reported
  refine breach.line_eq fun before opens known => ?_
  obtain ⟨raw, here, passes⟩ := exists_headerIn? opens (named _ known)
  exact exists_findLine? here passes (unique _ known) before

/-- A join in an explore of a model, with odd blanks and a comment. -/
def nestedJoin : Text :=
  "model: m \x7b\n  explore :e\x7b # join\n    join:  j \x7b\n      sql_on: a.b = 1 ;;\n".toList

theorem line_eq_lineOfPath_nestedJoin :
    ∃ violation ∈ (lintText {} nestedJoin).violations,
      pathHeaders violation.path =
        [("explore".toList, "e".toList), ("join".toList, "j".toList)] ∧
      violation.line = some (lineOfPath nestedJoin violation.path : Int) := by
  obtain ⟨violation, reported, headers, named, unique⟩ :
      ∃ violation ∈ (lintText {} nestedJoin).violations,
        pathHeaders violation.path =
          [("explore".toList, "e".toList), ("join".toList, "j".toList)] ∧
        (∀ header ∈ pathHeaders violation.path, header.2 ≠ []) ∧
        ∀ header ∈ pathHeaders violation.path, nestedJoin.lines.countP
          (fun line => (headerIn? true header.1 header.2 line).isSome) = 1 := by
    decide +kernel
  exact ⟨violation, reported, headers,
    @line_eq_lineOfPath {} nestedJoin violation rfl reported named unique⟩

end Lint

end LookML
