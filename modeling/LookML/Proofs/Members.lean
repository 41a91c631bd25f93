import LookML.Block
import LookML.Proofs.Rereading
import LookML.Proofs.Scopes

/-!
# Properties and blocks of what was written

The children of a block are read from its entries.  Entries that echo others are read as
children of the same keys, types and names, with the same values up to the layout of
segments.  Blank lines and comments have no part in this.
-/

namespace LookML

open Text Code List

/-- The value of a property before and after formatting.  It stays as it is, unless it is
the value of a segment, which is laid out line by line. -/
def FormatSettings.KeepsValue (settings : FormatSettings) (key value again : Text) : Prop :=
  again = value ∨
    (key ∈ settings.segmentProperties ∧ (settings.style key).Retells value again)

/-- Properties with the same keys in the same order, and values that were kept. -/
def FormatSettings.KeepsProperties (settings : FormatSettings)
    (properties again : Keyed Text) : Prop :=
  List.Forall₂ (fun property other => other.1 = property.1 ∧
    settings.KeepsValue property.1 property.2 other.2) properties again

/-- Blocks of the same type and name, whose properties were kept and whose blocks are alike. -/
inductive Block.Alike (settings : FormatSettings) : Block → Block → Prop
  | intro {block again : Block} (type : again.type = block.type) (name : again.name = block.name)
      (properties : settings.KeepsProperties block.properties again.properties)
      (blocks : List.Forall₂ (Block.Alike settings) block.blocks again.blocks) :
      Block.Alike settings block again

/-- Bodies whose properties were kept and whose blocks are alike. -/
structure Body.Alike (settings : FormatSettings) (body again : Body) : Prop where
  properties : settings.KeepsProperties body.properties again.properties
  blocks : List.Forall₂ (Block.Alike settings) body.blocks again.blocks

/-- Children that are alike. -/
inductive Member.Alike (settings : FormatSettings) : Member → Member → Prop
  | property {key value again : Text} (keeps : settings.KeepsValue key value again) :
      Alike settings (.property key value) (.property key again)
  | block {block again : Block} (alike : block.Alike settings again) :
      Alike settings (.block block) (.block again)

/-- Entries that echo others, apart from silent ones on both sides. -/
inductive Tells (settings : FormatSettings) : List Entry → List Entry → Prop
  | nil : Tells settings [] []
  | left {entry : Entry} {entries rest : List Entry} (silent : entry.Silent)
      (later : Tells settings entries rest) : Tells settings (entry :: entries) rest
  | right {entry : Entry} {entries rest : List Entry} (silent : entry.Silent)
      (later : Tells settings entries rest) : Tells settings entries (entry :: rest)
  | both {entry again : Entry} {entries rest : List Entry} (echo : entry.Echo settings again)
      (later : Tells settings entries rest) : Tells settings (entry :: entries) (again :: rest)

section Telling

variable {settings : FormatSettings} {entries rest more : List Entry}

theorem Echoes.tells (echoes : Echoes settings entries rest) : Tells settings entries rest := by
  induction echoes with
  | nil => exact .nil
  | dropped blank _ ih => exact .left (.inl blank) ih
  | cons echo _ ih => exact .both echo ih

theorem Tells.append_silent (tells : Tells settings entries rest)
    (silent : ∀ entry ∈ more, entry.Silent) :
    Tells settings entries (rest ++ more) := by
  induction tells with
  | nil =>
    induction more with
    | nil => exact .nil
    | cons entry more ih =>
      exact .right (silent entry mem_cons_self)
        (ih (forall_mem_cons.mp silent).2)
  | left quiet _ ih => exact .left quiet ih
  | right quiet _ ih => exact .right quiet ih
  | both echo _ ih => exact .both echo ih

theorem Entry.Echo.silent {entry again : Entry} (echo : entry.Echo settings again)
    (silent : again.Silent) :
    entry.Silent := by
  cases echo with
  | grouped => exact silent
  | @single line again echo =>
    have shape := echo.shape
    rcases silent with blank | comment
    · rw [blank] at shape
      cases same : line.shape <;> rw [same] at shape <;> cases shape
      exact .inl same
    · rw [comment] at shape
      cases same : line.shape <;> rw [same] at shape <;> cases shape
      exact .inr same

theorem Tells.of_append_silent (tells : Tells settings entries (rest ++ more))
    (silent : ∀ entry ∈ more, entry.Silent) : Tells settings entries rest := by
  generalize whole : rest ++ more = all at tells
  induction tells generalizing rest more with
  | nil =>
    obtain ⟨rfl, -⟩ := append_eq_nil_iff.mp whole
    exact .nil
  | left quiet _ ih => exact .left quiet (ih silent whole)
  | @right entry _ later quiet _ ih =>
    cases rest with
    | nil =>
      rw [nil_append] at whole
      subst whole
      exact ih (forall_mem_cons.mp silent).2 (nil_append later)
    | cons first rest =>
      obtain ⟨rfl, same⟩ := cons.inj whole
      exact .right quiet (ih silent same)
  | @both entry again _ later echo _ ih =>
    cases rest with
    | nil =>
      rw [nil_append] at whole
      subst whole
      exact .left (echo.silent (silent again mem_cons_self))
        (ih (forall_mem_cons.mp silent).2 (nil_append later))
    | cons first rest =>
      obtain ⟨rfl, same⟩ := cons.inj whole
      exact .both echo (ih silent same)

theorem Shape.tidied_eq_blockClose (shape : Shape) :
    shape.tidied = .blockClose ↔ shape = .blockClose := by
  cases shape <;> simp [tidied]

theorem Entry.Echo.closing? {entry again : Entry} (echo : entry.Echo settings again) (depth : Nat) :
    (again.closing? depth).isSome = (entry.closing? depth).isSome := by
  cases echo with
  | grouped => rfl
  | single echo =>
    simp only [Entry.closing?, echo.shape, echo.depth, Shape.tidied_eq_blockClose]
    split <;> rfl

/-- Entries that tell the same are cut at the same brace. -/
theorem Tells.cutAtClose (tells : Tells settings entries rest) (depth : Nat) :
    Tells settings (Entry.cutAtClose depth entries).1 (Entry.cutAtClose depth rest).1 ∧
      Tells settings (Entry.cutAtClose depth entries).2.2 (Entry.cutAtClose depth rest).2.2 := by
  induction tells with
  | nil => exact ⟨.nil, .nil⟩
  | left silent _ ih =>
    rw [Entry.cutAtClose, silent.closing? depth]
    exact ⟨.left silent ih.1, ih.2⟩
  | right silent _ ih =>
    rw [Entry.cutAtClose, silent.closing? depth]
    exact ⟨.right silent ih.1, ih.2⟩
  | @both entry again _ _ echo later ih =>
    have same := echo.closing? depth
    rw [Entry.cutAtClose, Entry.cutAtClose]
    cases here : entry.closing? depth with
    | some line =>
      rw [here] at same
      obtain ⟨other, there⟩ := Option.isSome_iff_exists.mp same
      rw [there]
      exact ⟨.nil, later⟩
    | none =>
      rw [here] at same
      rw [Option.isSome_eq_false_iff.mp same |> Option.isNone_iff_eq_none.mp]
      exact ⟨.both echo ih.1, ih.2⟩

end Telling

section Reading

variable {settings : FormatSettings} {entries rest : List Entry}

theorem KeepsProperties.ofOccurrences {properties again : Keyed Text}
    (keeps : settings.KeepsProperties properties again) :
    settings.KeepsProperties (Keyed.ofOccurrences properties) (Keyed.ofOccurrences again) :=
  Keyed.forall₂_ofOccurrences (fun _ _ kept => kept.1) keeps

namespace Member

theorem keeps_properties {members again : List Member}
    (alike : Forall₂ (Member.Alike settings) members again) :
    settings.KeepsProperties (members.filterMap property?) (again.filterMap property?) := by
  induction alike with
  | nil => exact .nil
  | cons here _ ih =>
    cases here with
    | property keeps => exact .cons ⟨rfl, keeps⟩ ih
    | block => exact ih

theorem alike_blocks {members again : List Member}
    (alike : Forall₂ (Member.Alike settings) members again) :
    Forall₂ (Block.Alike settings) (members.filterMap block?) (again.filterMap block?) := by
  induction alike with
  | nil => exact .nil
  | cons here _ ih =>
    cases here with
    | property => exact ih
    | block alike => exact .cons alike ih

/-- Entries that tell the same have children that are alike. -/
theorem alike_read (depth : Nat) (tells : Tells settings entries rest) :
    Forall₂ (Member.Alike settings) (read depth entries) (read depth rest) := by
  -- A block takes the entries up to its brace from both sides, so the induction is on
  -- how many there are.
  induction size : entries.length + rest.length using Nat.strong_induction_on
    generalizing depth entries rest with
  | _ size ih =>
    cases tells with
    | nil =>
      rw [read]
      exact .nil
    | left silent later | right silent later =>
      rw [read_silent silent]
      refine ih _ ?_ depth later rfl
      simp only [← size, length_cons]
      omega
    | @both entry again entries rest echo later =>
      have behind (depth : Nat) := ih (entries.length + rest.length) (by
        simp only [← size, length_cons]
        omega) depth later rfl
      cases echo with
      | @grouped segment again known property depthEq value =>
        rw [read, read, depthEq, property]
        split
        · exact .cons (.property (.inr ⟨known, value⟩)) (behind depth)
        · exact behind depth
      | @single line again echo =>
        rw [read, read, echo.depth, echo.shape]
        split
        next =>
          cases shape : line.shape with
          | property key value =>
            have same := Layout.stripTerminator_tidyValue (echo.value key value shape)
            refine .cons ?_ (behind depth)
            exact .property (.inl same)
          | inlineBlock key name body =>
            refine .cons (.block (.intro rfl rfl .nil .nil)) (behind depth)
          | blockOpen key name =>
            have cut := later.cutAtClose (depth + 1)
            have left := Entry.length_cutAtClose (depth + 1) entries
            have right := Entry.length_cutAtClose (depth + 1) rest
            have inner := ih _ (by simp only [← size, length_cons]; omega) (depth + 1) cut.1 rfl
            have outer := ih _ (by simp only [← size, length_cons]; omega) depth cut.2 rfl
            exact .cons (.block
              (.intro rfl rfl (KeepsProperties.ofOccurrences (keeps_properties inner))
              (alike_blocks inner))) outer
          | _ => exact behind depth
        next => exact behind depth

end Member

theorem Body.alike_ofLines (depth : Nat) {lines again : List Line}
    (tells : Tells settings (Entry.group lines) (Entry.group again)) :
    (ofLines depth lines).Alike settings (ofLines depth again) where
  properties :=
    KeepsProperties.ofOccurrences (Member.keeps_properties (Member.alike_read depth tells))
  blocks := Member.alike_blocks (Member.alike_read depth tells)

end Reading

end LookML
