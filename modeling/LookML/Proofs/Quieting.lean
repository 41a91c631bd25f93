import LookML.Lint.Structural
import LookML.Proofs.Fidelity
import LookML.Proofs.Weaving

/-!
# Documents without blank lines and comments

Blank lines and comments decide where comments are kept, but not what is declared.  If they are
left out before the document is built, it has the same declarations with the same fields, from
each of which just these lines are missing.  Properties and blocks are read from the lines that
stay, so the lint model is the same.
-/

namespace LookML

open Text List

section Loud

/-- A field without blank lines and comments. -/
def Field.loud (field : Field) : Field :=
  { field with comments := [], inner := field.inner.filter Line.isLoud }

/-- A declaration without blank lines and comments. -/
def Declaration.loud (declaration : Declaration) : Declaration where
  header := declaration.header
  footer := declaration.footer
  content := declaration.content.filter Line.isLoud
  fields := declaration.fields.map Field.loud

/-- An open field without blank lines and comments. -/
def OpenField.loud (field : OpenField) : OpenField where
  comments := []
  opening := field.opening
  inner := field.inner.filter Line.isLoud

/-- An open declaration without blank lines and comments. -/
def OpenDeclaration.loud (declaration : OpenDeclaration) : OpenDeclaration where
  header := declaration.header
  content := declaration.content.filter Line.isLoud
  fields := declaration.fields.map Field.loud
  field := declaration.field.map OpenField.loud

end Loud

theorem Line.isLoud_iff {line : Line} :
    line.isLoud = true ↔ line.shape ≠ .blank ∧ line.shape ≠ .comment := by
  unfold isLoud
  split
  next blank => simp [blank]
  next comment => simp [comment]
  next blank comment => exact ⟨fun _ => ⟨blank, comment⟩, fun _ => rfl⟩

namespace OpenDeclaration

variable {declaration : OpenDeclaration} {line : Line}

/-- Among lines that are neither blank nor comments there is no tail to cut. -/
theorem cutTail_of_loud (loud : ∀ line ∈ declaration.content, line.isLoud = true) :
    declaration.cutTail = (declaration.content, []) := by
  obtain ⟨kept, blanks, tail, content, cut, -, tailLines, -⟩ := declaration.exists_cutTail
  have none_ : blanks ++ tail = [] := by
    refine eq_nil_iff_forall_not_mem.mpr fun line member => ?_
    rw [content] at loud
    obtain ⟨notBlank, notComment⟩ := Line.isLoud_iff.mp (loud line (mem_append_right _ member))
    exact (tailLines line member).2.elim notComment notBlank
  rw [cut, content, none_, append_nil, (append_eq_nil_iff.mp none_).2]

theorem cutTail_loud (declaration : OpenDeclaration) :
    declaration.loud.cutTail = (declaration.loud.content, []) :=
  cutTail_of_loud fun _ member => (mem_filter.mp member).2

theorem close_loud (declaration : OpenDeclaration) (footer : Line) :
    declaration.loud.close footer = (declaration.close footer).loud := by
  rw [close, cutTail_loud, close, Declaration.loud, loud_cutTail]
  rfl

theorem abandon_loud (silent : declaration.waiting.filter Line.isLoud = []) :
    declaration.loud.abandon = declaration.abandon.loud := by
  cases open_ : declaration.field <;>
    simp [abandon, Declaration.loud, loud, silent, open_, parent, OpenField.close, OpenField.loud,
      Field.loud]

theorem add_of_silent (quiet : line.isLoud = false)
    (silent : declaration.waiting.filter Line.isLoud = []) :
    ∃ more, declaration.add line = .inl more ∧ more.loud = declaration.loud ∧
      more.waiting.filter Line.isLoud = [] := by
  have shape := line.shape_of_not_loud quiet
  have noClose : line.shape ≠ .blockClose := by rcases shape with shape | shape <;> simp [shape]
  have step := declaration.step_add line
  generalize declaration.add line = result at step
  cases step with
  | endsField _ close => exact absurd close noClose
  | inField open_ =>
    refine ⟨_, rfl, ?_, silent⟩
    simp [loud, OpenField.loud, open_, quiet]
  | kept none_ =>
    refine ⟨_, rfl, ?_, rfl⟩
    simp [loud, keep, silent, quiet]
  | ends _ _ close => exact absurd close noClose
  | skipped => exact ⟨_, rfl, rfl, silent⟩
  | waits =>
    -- The comment waits for a field; what waits is not part of the quiet declaration.
    refine ⟨_, rfl, rfl, ?_⟩
    simp [silent, quiet]
  | startsField _ _ opens =>
    obtain ⟨key, name, header, -⟩ := opensField_iff.mp opens
    rcases shape with shape | shape <;> simp [header] at shape

theorem add_of_loud (heard : line.isLoud = true)
    (silent : declaration.waiting.filter Line.isLoud = []) :
    declaration.loud.add line = Sum.map loud Declaration.loud (declaration.add line) ∧
      ∀ more, declaration.add line = .inl more → more.waiting.filter Line.isLoud = [] := by
  have noComment := (Line.isLoud_iff.mp heard).2
  have field : declaration.loud.field = declaration.field.map OpenField.loud := rfl
  have closedBy (field : OpenField) : field.loud.isClosedBy line = field.isClosedBy line := rfl
  have childDepth : declaration.loud.childDepth = declaration.childDepth := rfl
  have kept : declaration.loud.keep line = (declaration.keep line).loud := by
    simp [loud, keep, silent, heard]
  unfold add
  rw [field]
  cases open_ : declaration.field with
  | some field =>
    simp only [Option.map_some, closedBy]
    split
    · refine ⟨?_, fun more same => ?_⟩
      · simp [loud, OpenField.close, OpenField.loud, Field.loud, parent]
      · cases same
        exact silent
    · refine ⟨?_, fun more same => ?_⟩
      · simp [loud, OpenField.loud, heard]
      · cases same
        exact silent
  | none =>
    simp only [Option.map_none, childDepth, if_neg noComment, kept, close_loud]
    split
    · exact ⟨rfl, fun more same => by cases same; rfl⟩
    split
    · exact ⟨rfl, fun more same => by cases same⟩
    split
    · exact ⟨rfl, fun more same => by cases same; rfl⟩
    · exact ⟨rfl, fun more same => by cases same; rfl⟩

end OpenDeclaration

/-- An outline beside the one of the same lines without blank lines and comments. -/
structure Outline.Quiets (outline quiet : Outline) : Prop where
  declarations : quiet.declarations = outline.declarations.map Declaration.loud
  declaration : quiet.declaration = outline.declaration.map OpenDeclaration.loud
  waiting : ∀ declaration ∈ outline.declaration, declaration.waiting.filter Line.isLoud = []

namespace Outline.Quiets

variable {outline quiet : Outline} {line : Line}

theorem add_of_silent (quiets : outline.Quiets quiet) (silent : line.isLoud = false) :
    (outline.add line).Quiets quiet := by
  have step := outline.step_add line
  generalize outline.add line = next at step
  have shape := line.shape_of_not_loud silent
  cases step with
  | @within declaration more open_ result =>
    obtain ⟨more', result', same, waits⟩ :=
      OpenDeclaration.add_of_silent silent (quiets.waiting declaration open_)
    cases result.symm.trans result'
    refine ⟨quiets.declarations, ?_, ?_⟩
    · rw [quiets.declaration, open_, Option.map_some, Option.map_some, same]
    · rintro _ ⟨⟩
      exact waits
  | @completes declaration complete open_ result =>
    obtain ⟨more, result', -⟩ :=
      OpenDeclaration.add_of_silent silent (quiets.waiting declaration open_)
    cases result.symm.trans result'
  | opens _ _ header | inline _ _ header =>
    rcases shape with shape | shape <;> simp [header] at shape
  | loose => exact ⟨quiets.declarations, quiets.declaration, quiets.waiting⟩

theorem add_of_loud (quiets : outline.Quiets quiet) (heard : line.isLoud = true) :
    (outline.add line).Quiets (quiet.add line) := by
  have same := quiets.declaration
  unfold Outline.add
  rw [same]
  cases open_ : outline.declaration with
  | some declaration =>
    obtain ⟨added, waits⟩ := OpenDeclaration.add_of_loud heard (quiets.waiting declaration open_)
    rw [Option.map_some]
    dsimp only
    rw [added]
    cases result : declaration.add line with
    | inl more =>
      refine ⟨quiets.declarations, rfl, ?_⟩
      rintro _ ⟨⟩
      exact waits more result
    | inr complete =>
      refine ⟨?_, rfl, fun _ none_ => by cases none_⟩
      have before := quiets.declarations
      simp only [Outline.declarations, Sum.map_inr, filterMap_append, map_append] at before ⊢
      rw [before]
      rfl
  | none =>
    have settled : quiet.settled.filterMap Item.declaration? =
        (outline.settled.filterMap Item.declaration?).map Declaration.loud := by
      rw [declarations_settled, declarations_settled, quiets.declarations]
    have loose : Quiets { items := outline.items, loose := outline.loose ++ [line] }
        { items := quiet.items, loose := quiet.loose ++ [line] } :=
      ⟨quiets.declarations, rfl, fun _ none_ => by cases none_⟩
    simp only [Option.map_none]
    split
    · split
      · refine ⟨settled, rfl, ?_⟩
        rintro _ ⟨⟩
        rfl
      · refine ⟨?_, rfl, fun _ none_ => by cases none_⟩
        simp only [Outline.declarations, filterMap_append, map_append, settled]
        rfl
      · exact loose
    · exact loose

theorem foldl (quiets : outline.Quiets quiet) (lines : List Line) :
    (lines.foldl add outline).Quiets
      ((lines.filter Line.isLoud).foldl add quiet) := by
  induction lines generalizing outline quiet with
  | nil => exact quiets
  | cons line lines ih =>
    cases heard : line.isLoud with
    | true =>
      rw [filter_cons_of_pos heard]
      exact ih (quiets.add_of_loud heard)
    | false =>
      rw [filter_cons_of_neg (by simp [heard])]
      exact ih (quiets.add_of_silent heard)

theorem begun (quiets : outline.Quiets quiet) :
    quiet.begun = outline.begun.map Declaration.loud := by
  rw [Outline.begun, Outline.begun, quiets.declarations, quiets.declaration, map_append]
  cases open_ : outline.declaration with
  | none => rfl
  | some declaration =>
    simp only [Option.map_some, Option.toList_some, map_cons, map_nil]
    rw [OpenDeclaration.abandon_loud (quiets.waiting declaration open_)]

end Outline.Quiets

/-- Without the blank lines and comments of its text a document declares the same. -/
theorem Document.declarations_loud (lines : List Line) (anomalies others : List Anomaly) :
    (ofLexed ⟨lines.filter Line.isLoud, others⟩).declarations =
      (ofLexed ⟨lines, anomalies⟩).declarations.map Declaration.loud := by
  have start : Outline.Quiets {} {} := ⟨rfl, rfl, fun _ none_ => by cases none_⟩
  have quiets := start.foldl lines
  rw [declarations, declarations, ofLexed, ofLexed, Outline.declarations_finish,
    Outline.declarations_finish]
  exact quiets.begun

section Bodies

variable {properties : List Text} {reads : Level → Line → Prop}
  (readAt : ReadsAt properties reads)

theorem Entry.cutAtClose_loud_rest (depth : Nat) (entries : List Entry) :
    (cutAtClose depth (entries.filter isLoud)).2.2 =
      (cutAtClose depth entries).2.2.filter isLoud := by
  induction entries with
  | nil => rfl
  | cons entry entries ih =>
    cases found : entry.closing? depth with
    | some line =>
      have loud : entry.isLoud = true := by
        by_contra silent
        rw [closing?_of_not_loud (Bool.eq_false_iff.mpr silent)] at found
        cases found
      rw [filter_cons_of_pos loud]
      simp [cutAtClose, found]
    | none =>
      rw [cutAtClose_cons_none found, ← ih, filter_cons]
      split
      · rw [cutAtClose_cons_none found]
      · rfl

/-- Blank lines and comments are no children of a block. -/
theorem Member.read_loud (depth : Nat) (entries : List Entry) :
    read depth (entries.filter Entry.isLoud) = read depth entries := by
  have skipped {depth : Nat} {line : Line} {entries : List Entry}
      (skip : ∀ rest, read depth (.single line :: rest) = read depth rest)
      (later : read depth (entries.filter Entry.isLoud) = read depth entries) :
      read depth ((Entry.single line :: entries).filter Entry.isLoud) =
        read depth (.single line :: entries) := by
    rw [filter_cons]
    split
    · rw [skip, skip, later]
    · rw [skip, later]
  induction depth, entries using read.induct with
  | case1 depth => rfl
  | case2 segment entries ih | case3 depth segment entries elsewhere ih =>
    rw [filter_cons_of_pos rfl, read, ih, read]
  | case4 line entries key value shape ih | case5 line entries key name value shape ih =>
    have loud : Entry.isLoud (.single line) = true := Line.isLoud_iff.mpr (by simp [shape])
    rw [filter_cons_of_pos loud, read, read, shape]
    simp only [ih]
  | case6 line entries key name shape cut inside behind =>
    have loud : Entry.isLoud (.single line) = true := Line.isLoud_iff.mpr (by simp [shape])
    obtain ⟨inner, close⟩ := Entry.cutAtClose_loud (line.depth + 1) entries
    have rest := Entry.cutAtClose_loud_rest (line.depth + 1) entries
    rw [filter_cons_of_pos loud, read, read, shape]
    simp only [inner, close, rest, if_true]
    rw [inside, behind]
  | case7 line entries noProperty noInline noOpen ih =>
    exact skipped (read_of_childless noProperty noInline noOpen _) ih
  | case8 depth line entries elsewhere ih => exact skipped (read_of_elsewhere elsewhere) ih

include readAt

theorem Body.ofLines_loud {depth : Nat} {lines : List Line} {final : Level} (child : Nat)
    (run : Run reads (.outside depth) lines final) :
    ofLines child (lines.filter Line.isLoud) = ofLines child lines := by
  rw [ofLines, run.group_loud readAt, Member.read_loud, ofLines]

end Bodies

/-- A declaration whose parts are runs, so that blank lines and comments can be told from the
lines of segments. -/
structure Declaration.Legible (reads : Level → Line → Prop) (declaration : Declaration) : Prop where
  content : ∃ depth final, Run reads (.outside depth) declaration.content final
  inner : ∀ field ∈ declaration.fields, ∃ depth final, Run reads (.outside depth) field.inner final

section Legible

variable {properties : List Text} {reads : Level → Line → Prop} {declaration : Declaration}
  {final : Level}

theorem Field.Sound.legible {field : Field} (sound : field.Sound reads final) :
    ∃ depth final, Run reads (.outside depth) field.inner final := by
  obtain ⟨key, name, opens, -⟩ := opensField_iff.mp sound.opens
  have run := sound.run
  rw [lines] at run
  cases run with
  | cons _ later =>
    rw [opens] at later
    obtain ⟨middle, inside, -⟩ := later.split
    exact ⟨2, middle, inside⟩

theorem Item.Sound.legible (sound : (Item.declaration declaration).Sound reads final) :
    declaration.Legible reads := by
  have inner (field : Field) (member : field ∈ declaration.fields) :
      ∃ depth final, Run reads (.outside depth) field.inner final :=
    (sound.field member).elim fun _ sound => sound.legible
  rcases sound with ⟨-, inline | closed⟩ | abandoned
  · refine ⟨⟨0, .outside 0, ?_⟩, inner⟩
    rw [inline.eq]
    exact .nil _
  · exact ⟨⟨1, _, closed.run⟩, inner⟩
  · obtain ⟨level, run, -⟩ := abandoned.run
    exact ⟨⟨1, level, run⟩, inner⟩

theorem Document.legible_declarations {lexed : Lexed}
    (run : Run reads (.outside 0) lexed.lines final)
    (readAt : ReadsAt properties reads) :
    ∀ declaration ∈ (ofLexed lexed).declarations, declaration.Legible reads := by
  intro declaration member
  obtain ⟨last, sound⟩ := exists_sound readAt run (mem_items member)
  exact sound.legible

variable (readAt : ReadsAt properties reads)
  (legible : declaration.Legible reads)
include readAt legible

theorem Declaration.Legible.body : declaration.loud.body = declaration.body := by
  obtain ⟨depth, final, run⟩ := legible.content
  exact Body.ofLines_loud readAt _ run

theorem Declaration.Legible.fieldBody {field : Field} (member : field ∈ declaration.fields) :
    field.loud.body = field.body := by
  obtain ⟨depth, final, run⟩ := legible.inner field member
  exact Body.ofLines_loud readAt _ run

end Legible

namespace Lint

section Legible

variable {properties : List Text} {reads : Level → Line → Prop}
  (readAt : ReadsAt properties reads)
  {declaration : Declaration} (legible : declaration.Legible reads)
include readAt legible

theorem FieldSpec.ofField_loud {field : Field} (member : field ∈ declaration.fields) :
    ofField field.loud = ofField field := by
  have body := legible.fieldBody readAt member
  simp only [ofField, Field.isPrimaryKey, Field.get?, body]
  rfl

theorem ViewSpec.fieldsOf_loud (kind : FieldKind) :
    fieldsOf declaration.loud kind = fieldsOf declaration kind := by
  have fields : declaration.loud.fieldsOf kind = (declaration.fieldsOf kind).map Field.loud := by
    rw [Declaration.fieldsOf, Declaration.loud, filter_map]
    rfl
  rw [fieldsOf, fieldsOf, fields, map_map]
  congr 1
  apply map_congr_left
  intro field member
  have isField := (mem_filter.mp member).1
  exact congrArg (Prod.mk field.name) (FieldSpec.ofField_loud readAt legible isField)

theorem ViewSpec.ofDeclaration_loud :
    ofDeclaration declaration.loud = ofDeclaration declaration := by
  have body := legible.body readAt
  have fields := fieldsOf_loud readAt legible
  simp only [ofDeclaration, Declaration.get?, Declaration.firstBlock?,
    Declaration.blocksOf, body, fields]
  rfl

theorem exploresOf_loud : exploresOf declaration.loud = exploresOf declaration := by
  have body := legible.body readAt
  have kind : declaration.loud.kind = declaration.kind := rfl
  simp only [exploresOf, kind, ExploreSpec.ofDeclaration, Declaration.blocksOf, body]
  rfl

theorem ModelSpec.ofDeclaration_loud :
    ofDeclaration declaration.loud = ofDeclaration declaration := by
  have body := legible.body readAt
  have content : declaration.loud.content = declaration.content.filter Line.isLoud := rfl
  have childDepth : declaration.loud.childDepth = declaration.childDepth := rfl
  simp only [ofDeclaration, Declaration.get?, body, content, childDepth, filterMap_filter]
  congr 1
  apply filterMap_congr
  intro line _
  split
  next => rfl
  next silent =>
    rcases Line.shape_of_not_loud (Bool.eq_false_iff.mpr silent) with shape | shape <;> rw [shape]

end Legible

/-- The lint model does without blank lines and comments. -/
theorem Model.ofDocument_loud {properties : List Text} {lines : List Line} {final : Level}
    (run : Run (Line.ReadAt properties) (.outside 0) lines final)
    (anomalies others : List Anomaly) :
    ofDocument (.ofLexed ⟨lines.filter Line.isLoud, others⟩) =
      ofDocument (.ofLexed ⟨lines, anomalies⟩) := by
  have legible : ∀ declaration ∈ (Document.ofLexed ⟨lines, anomalies⟩).declarations,
      declaration.Legible (Line.ReadAt properties) :=
    Document.legible_declarations run .refl
  have quiet := Document.declarations_loud lines anomalies others
  generalize Document.ofLexed ⟨lines, anomalies⟩ = document at legible quiet ⊢
  generalize Document.ofLexed ⟨lines.filter Line.isLoud, others⟩ = other at quiet ⊢
  have ofKind {α : Type} (kind : DeclarationKind) (spec : Declaration → α)
      (same : ∀ declaration : Declaration, declaration.Legible (Line.ReadAt properties) →
        spec declaration.loud = spec declaration) :
      (other.declarationsOf kind).map (fun declaration => (declaration.name, spec declaration)) =
        (document.declarationsOf kind).map fun declaration =>
          (declaration.name, spec declaration) := by
    rw [Document.declarationsOf, quiet, filter_map, map_map]
    apply map_congr_left
    intro declaration member
    exact congrArg (Prod.mk declaration.name)
      (same declaration (legible declaration (mem_filter.mp member).1))
  have explores : other.declarations.flatMap exploresOf =
      document.declarations.flatMap exploresOf := by
    rw [quiet, flatMap_map]
    apply flatMap_congr
    intro declaration member
    exact exploresOf_loud .refl (legible declaration member)
  rw [ofDocument, ofDocument, explores,
    ofKind .view ViewSpec.ofDeclaration fun _ => ViewSpec.ofDeclaration_loud .refl,
    ofKind .model ModelSpec.ofDeclaration fun _ => ModelSpec.ofDeclaration_loud .refl]

end Lint

end LookML
