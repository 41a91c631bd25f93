import LookML.Proofs.Arrangement

/-!
# The canonical arrangement of fields

Every field stands in the section of its category, in source order or sorted by name.  Sorting is
stable: fields of one name keep their order.  A sorted list is determined by the order among the
fields of each name, so the sections of sorted fields do not depend on the order of the others, and
fields that were arranged are arranged in the same sections.
-/

namespace LookML

open Text List

variable {left right : Text} {fields others : List Field}

namespace Text

/-- The strict order of texts by code point, a text before its extensions. -/
def Before (left right : Text) : Prop :=
  List.Lex (fun a b => a.toNat < b.toNat) left right

theorem le_eq_true_iff : le left right = true ↔ left = right ∨ Before left right := by
  induction left generalizing right with
  | nil =>
    cases right with
    | nil => exact ⟨fun _ => .inl rfl, fun _ => rfl⟩
    | cons b right => exact ⟨fun _ => .inr .nil, fun _ => rfl⟩
  | cons a left ih =>
    cases right with
    | nil =>
      constructor
      · intro below
        cases below
      · rintro (same | before)
        · cases same
        · cases before
    | cons b right =>
      by_cases same : a = b
      · subst same
        rw [le, if_pos rfl, ih]
        constructor
        · rintro (rfl | before)
          · exact .inl rfl
          · exact .inr (.cons before)
        · rintro (equal | before)
          · exact .inl (cons.inj equal).2
          · cases before with
            | rel less => exact absurd less (Nat.lt_irrefl _)
            | cons before => exact .inr before
      · rw [le, if_neg same, decide_eq_true_eq]
        constructor
        · exact fun less => .inr (.rel less)
        · rintro (equal | before)
          · exact absurd (cons.inj equal).1 same
          · cases before with
            | rel less => exact less
            | cons before => exact absurd rfl same

end Text

/-- The order of names: by their folded forms, and by themselves where these are equal. -/
def NameOrder (left right : Text) : Prop :=
  Before (fold left) (fold right) ∨
    fold left = fold right ∧ (left = right ∨ Before left right)

theorem nameLe_eq_true_iff : nameLe left right = true ↔ NameOrder left right := by
  simp only [nameLe, NameOrder]
  split
  next same =>
    rw [le_eq_true_iff]
    constructor
    · exact fun below => .inr ⟨same, below⟩
    · rintro (before | ⟨-, below⟩)
      · rw [same] at before
        have irreflexive (text : Text) : ¬ Before text text := by
          intro before
          induction text with
          | nil => cases before
          | cons c text ih =>
            cases before with
            | rel less => exact Nat.lt_irrefl _ less
            | cons before => exact ih before
        exact absurd before (irreflexive _)
      · exact below
  next other =>
    rw [le_eq_true_iff]
    constructor
    · rintro (same | before)
      · exact absurd same other
      · exact .inl before
    · rintro (before | ⟨same, -⟩)
      · exact .inr before
      · exact absurd same other

theorem nameLe_refl (name : Text) : nameLe name name = true := by
  simpa using nameLe_total name name

theorem nameLe_antisymm (below : nameLe left right = true)
    (above : nameLe right left = true) : left = right := by
  simp only [nameLe] at below above
  by_cases same : fold left = fold right
  · rw [if_pos same] at below
    rw [if_pos same.symm] at above
    exact Text.le_antisymm below above
  · rw [if_neg same] at below
    rw [if_neg fun equal => same equal.symm] at above
    exact absurd (Text.le_antisymm below above) same

/-- Whether a field has a category and a name. -/
def Field.isNamesake (category : Category) (name : Text) (field : Field) : Bool :=
  Category.ofKind field.kind = category && field.name = name

/-- Lists with the same fields of every category and name, in the same order.  They are
permutations of each other that move no field past one of its category and name. -/
def SameNamesakes (fields others : List Field) : Prop :=
  ∀ category name,
    others.filter (Field.isNamesake category name) = fields.filter (Field.isNamesake category name)

/-- Fields with different names may come in any order. -/
theorem SameNamesakes.of_nodup (perm : others.Perm fields)
    (distinct : (fields.map Field.name).Nodup) : SameNamesakes fields others := by
  intro category name
  have both := perm.filter (Field.isNamesake category name)
  have named : ∀ field ∈ fields.filter (Field.isNamesake category name), field.name = name := by
    intro field member
    have namesake := (mem_filter.mp member).2
    simp only [Field.isNamesake, Bool.and_eq_true, decide_eq_true_eq] at namesake
    exact namesake.2
  have distinct' := distinct.sublist (filter_sublist.map Field.name :
    ((fields.filter (Field.isNamesake category name)).map Field.name).Sublist _)
  generalize fields.filter (Field.isNamesake category name) = found at both named distinct'
  obtain - | ⟨first, - | ⟨second, rest⟩⟩ := found
  · exact both.eq_nil
  · exact both.eq_singleton
  · have same : first.name = second.name := by
      rw [named first (by simp), named second (by simp)]
    simp [same] at distinct'

/-- Fields sorted by name are determined by the order among those of each name. -/
theorem Field.eq_of_filter_name
    (sorted : fields.Pairwise fun first second => nameLe first.name second.name = true)
    (sorted' : others.Pairwise fun first second => nameLe first.name second.name = true)
    (same : ∀ name, others.filter (fun field => field.name = name) =
      fields.filter fun field => field.name = name) : others = fields := by
  induction fields generalizing others with
  | nil =>
    refine eq_nil_iff_forall_not_mem.mpr fun field member => ?_
    have found : field ∈ others.filter fun other => other.name = field.name :=
      mem_filter.mpr ⟨member, by simp⟩
    rw [same] at found
    cases found
  | cons field fields ih =>
    have mem {other : Field} : other ∈ others ↔ other ∈ field :: fields := by
      have both := congrArg (other ∈ ·) (same other.name)
      simpa [mem_filter] using both
    obtain ⟨least, rest⟩ := pairwise_cons.mp sorted
    cases others with
    | nil => exact absurd (mem.mpr mem_cons_self) (not_mem_nil)
    | cons other others =>
      obtain ⟨least', rest'⟩ := pairwise_cons.mp sorted'
      -- Each of the two first fields is in the other list, so neither name is less.
      have named : other.name = field.name := by
        apply nameLe_antisymm
        · rcases mem_cons.mp (mem.mpr mem_cons_self) with rfl | later
          · exact nameLe_refl _
          · exact least' field later
        · rcases mem_cons.mp (mem.mp mem_cons_self) with rfl | later
          · exact nameLe_refl _
          · exact least other later
      have here := same field.name
      simp only [filter_cons, named, decide_true, if_true] at here
      obtain ⟨rfl, -⟩ := cons.inj here
      refine congrArg (List.cons other) (ih rest rest' fun name => ?_)
      have both := same name
      simp only [filter_cons] at both
      split at both
      · exact (cons.inj both).2
      · exact both

namespace Section

variable {group sort : Bool}

/-- Sections that arrange fields as it is asked for. -/
structure Arranges (group sort : Bool) (fields : List Field) (sections : List Section) : Prop where
  /-- Every field is in one section, and nothing else is. -/
  perm : (sections.flatMap Section.fields).Perm fields
  occupied : ∀ part ∈ sections, part.fields ≠ []
  /-- Sections follow each other in the order of categories, one for each at most. -/
  categories : (group || sort) = true → (sections.map Section.category).Sublist
    [some .filters, some .parameters, some .dimensions, some .measures, some .others]
  members : (group || sort) = true → ∀ part ∈ sections, ∀ field ∈ part.fields,
    part.category = some (.ofKind field.kind)
  unsorted : sort = false → ∀ part ∈ sections, part.fields.Sublist fields
  sorted : sort = true → ∀ part ∈ sections, part.fields.Pairwise fun first second =>
    NameOrder first.name second.name
  /-- Fields of one name are in source order. -/
  stable : ∀ part ∈ sections, ∀ name,
    (part.fields.filter fun field => field.name = name).Sublist fields

/-- The fields of a name in the section of a category are in source order. -/
theorem filter_name_ofCategory (group sort : Bool) (fields : List Field) (category : Category)
    (name : Text) :
    (ofCategory group sort fields category).fields.filter (fun field => field.name = name) =
      fields.filter (Field.isNamesake category name) := by
  have both : (fields.filter fun field => Category.ofKind field.kind = category).filter
      (fun field => field.name = name) = fields.filter (Field.isNamesake category name) := by
    rw [filter_filter]
    exact filter_congr fun field _ => Bool.and_comm _ _
  rw [← both, ofCategory]
  dsimp only
  split
  next =>
    generalize fields.filter (fun field => Category.ofKind field.kind = category) = members
    have namesakes : (members.filter fun field => field.name = name).Pairwise
        fun first second => nameLe first.name second.name = true := by
      refine pairwise_of_forall_mem_list fun first isFirst second isSecond => ?_
      have named := (mem_filter.mp isFirst).2
      have named' := (mem_filter.mp isSecond).2
      simp only [decide_eq_true_eq] at named named'
      rw [named, named']
      exact nameLe_refl name
    have kept := (sublist_mergeSort fieldLe_trans fieldLe_total namesakes filter_sublist).filter
      fun field => field.name = name
    rw [filter_filter, filter_congr fun field _ => Bool.and_self _] at kept
    exact (kept.eq_of_length ((mergeSort_perm _ _).filter _).length_eq.symm).symm
  next => rfl

/-- With grouping or sorting there is a section for every category that has fields. -/
theorem arrange_eq (arranges : (group || sort) = true) (fields : List Field) :
    arrange group sort fields = (Category.all.map (ofCategory group sort fields)).filter fun part =>
      !part.fields.isEmpty := by
  have neither : ¬ (!group && !sort) = true := by
    rw [← Bool.not_or, arranges]
    simp
  rw [arrange, if_neg neither]
  split
  next empty =>
    rw [List.isEmpty_iff.mp empty]
    refine (filter_eq_nil_iff.mpr fun part member => ?_).symm
    obtain ⟨category, -, rfl⟩ := mem_map.mp member
    have nothing : (ofCategory group sort [] category).fields = [] :=
      (perm_ofCategory group sort [] category).eq_nil
    rw [nothing]
    decide
  next => rfl

/-- Sections are the same where the fields of every section are. -/
theorem arrange_congr (arranges : (group || sort) = true)
    (same : ∀ category, (ofCategory group sort others category).fields =
      (ofCategory group sort fields category).fields) :
    arrange group sort others = arrange group sort fields := by
  have each : ofCategory group sort others = ofCategory group sort fields := by
    funext category
    exact congrArg (mk (some category) · (group && category.hasMarkers)) (same category)
  rw [arrange_eq arranges, arrange_eq arranges, each]

theorem ofCategory_arranged (arranges : (group || sort) = true) (fields : List Field)
    (category : Category) :
    (ofCategory group sort (arranged group sort fields) category).fields =
      (ofCategory group sort fields category).fields := by
  have members := filter_arranged arranges fields category
  rw [ofCategory]
  dsimp only
  rw [members]
  split
  next sorts =>
    subst sorts
    exact mergeSort_of_pairwise (pairwise_ofCategory group fields category)
  next => rfl

theorem arrange_arranged (group sort : Bool) (fields : List Field) :
    arrange group sort (arranged group sort fields) = arrange group sort fields := by
  by_cases arranges : (group || sort) = true
  · exact arrange_congr arranges (ofCategory_arranged arranges fields)
  · obtain ⟨rfl, rfl⟩ : group = false ∧ sort = false := by
      simpa using arranges
    have whole : arranged false false fields = fields := by
      rw [arranged, arrange]
      split
      next empty => exact (List.isEmpty_iff.mp empty).symm
      next => simp
    rw [whole]

theorem arrange_of_sameNamesakes (group : Bool) (same : SameNamesakes fields others) :
    arrange group true others = arrange group true fields := by
  refine arrange_congr (Bool.or_true group) fun category => ?_
  apply Field.eq_of_filter_name (pairwise_ofCategory group fields category)
    (pairwise_ofCategory group others category)
  intro name
  rw [filter_name_ofCategory, filter_name_ofCategory, same]

/-- A section is the section of a category, or all fields stand in it in source order. -/
theorem cases_of_mem_arrange {part : Section} (member : part ∈ arrange group sort fields) :
    part.fields ≠ [] ∧
      (((group || sort) = true ∧ ∃ category, part = ofCategory group sort fields category) ∨
        (group || sort) = false ∧ part.fields = fields) := by
  by_cases arranges : (group || sort) = true
  · rw [arrange_eq arranges] at member
    obtain ⟨listed, occupied⟩ := mem_filter.mp member
    obtain ⟨category, -, rfl⟩ := mem_map.mp listed
    exact ⟨by simpa using occupied, .inl ⟨arranges, category, rfl⟩⟩
  · have neither : (group || sort) = false := by simpa using arranges
    obtain ⟨rfl, rfl⟩ : group = false ∧ sort = false := by
      simpa using arranges
    rw [arrange] at member
    split at member
    next => cases member
    next occupied =>
      cases mem_singleton.mp member
      exact ⟨by simpa using occupied, .inr ⟨rfl, rfl⟩⟩

theorem arranges_of_flags (group sort : Bool) (fields : List Field) :
    Arranges group sort fields (arrange group sort fields) where
  perm := perm_arrange group sort fields
  occupied part member := (cases_of_mem_arrange member).1
  categories arranges := by
    have listed : (Category.all.map (ofCategory group sort fields)).map category =
        Category.all.map some := by
      rw [map_map]
      rfl
    rw [arrange_eq arranges]
    have kept := (filter_sublist (p := fun part : Section => !part.fields.isEmpty)
      (l := Category.all.map (ofCategory group sort fields))).map category
    rw [listed] at kept
    exact kept
  members arranges part member field isField := by
    obtain ⟨-, ⟨-, category, rfl⟩ | ⟨neither, -⟩⟩ := cases_of_mem_arrange member
    · have own := (perm_ofCategory group sort fields category).subset isField
      have kind := (mem_filter.mp own).2
      simp only [decide_eq_true_eq] at kind
      rw [kind]
      rfl
    · rw [arranges] at neither
      cases neither
  unsorted plain part member := by
    subst plain
    obtain ⟨-, ⟨-, category, rfl⟩ | ⟨-, whole⟩⟩ := cases_of_mem_arrange member
    · exact filter_sublist
    · rw [whole]
  sorted sorts part member := by
    subst sorts
    obtain ⟨-, ⟨-, category, rfl⟩ | ⟨neither, -⟩⟩ := cases_of_mem_arrange member
    · exact (pairwise_ofCategory group fields category).imp nameLe_eq_true_iff.mp
    · rw [Bool.or_true] at neither
      cases neither
  stable part member name := by
    obtain ⟨-, ⟨-, category, rfl⟩ | ⟨-, whole⟩⟩ := cases_of_mem_arrange member
    · rw [filter_name_ofCategory]
      exact filter_sublist
    · rw [whole]
      exact filter_sublist

/-- Fields are arranged as it is asked for.  Fields that were arranged are arranged in the same
sections, and so are sorted fields in another order, if those of one category and name keep
theirs. -/
theorem arranges_arrange (group sort : Bool) (fields : List Field) :
    Arranges group sort fields (arrange group sort fields) ∧
      arrange group sort ((arrange group sort fields).flatMap Section.fields) =
        arrange group sort fields ∧
      (sort = true → ∀ others, SameNamesakes fields others →
        arrange group sort others = arrange group sort fields) := by
  refine ⟨arranges_of_flags group sort fields, arrange_arranged group sort fields, ?_⟩
  rintro rfl others same
  exact arrange_of_sameNamesakes group same

/-- A field of which only the header is given. -/
def headed (key name : String) : Field where
  parent := ⟨some "view".toList, some "v".toList, 0⟩
  opening := ⟨0, [], 1, .blockOpen (some key.toList) (some name.toList)⟩

/-- A measure between two dimensions that are not in the order of their names. -/
def mixedFields : List Field :=
  [headed "dimension" "b", headed "measure" "m", headed "dimension" "A"]

theorem arranges_arrange_mixedFields :
    Arranges true true mixedFields (arrange true true mixedFields) ∧
      mixedFields.reverse ≠ mixedFields ∧ SameNamesakes mixedFields mixedFields.reverse ∧
      arrange true true mixedFields.reverse = arrange true true mixedFields := by
  have same : SameNamesakes mixedFields mixedFields.reverse :=
    .of_nodup (reverse_perm _) (by decide)
  exact ⟨(arranges_arrange true true mixedFields).1, by decide, same,
    (arranges_arrange true true mixedFields).2.2 rfl _ same⟩

end Section

end LookML
