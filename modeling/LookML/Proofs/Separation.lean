import LookML.Proofs.Tokens

/-!
# Spelling glues nothing together

A text is seen as its characters that are no blanks, each with whether it begins a word.
Spelling keeps these characters up to their case, and one that begins a word still does: blanks
are put in and replaced, but never taken away altogether.
-/

namespace LookML

open List

/-- Relations between the members of lists are composed member by member. -/
theorem forall₂_comp {α : Type} {r s t : α → α → Prop} (composed : ∀ a b c, r a b → s b c → t a c)
    {first second third : List α} (left : Forall₂ r first second)
    (right : Forall₂ s second third) : Forall₂ t first third := by
  induction left generalizing third with
  | nil =>
    cases right
    exact .nil
  | cons here _ ih =>
    cases right with
    | cons there later => exact .cons (composed _ _ _ here there) (ih later)

namespace Text

/-- The characters of a text that are no blanks, each with whether it begins a word, that is
whether none of them stands right before it.  Whether the text itself stands behind a blank is
given. -/
def solidsFrom : Bool → Text → List (Char × Bool)
  | _, [] => []
  | apart, c :: text =>
    if isBlank c then solidsFrom true text else (c, apart) :: solidsFrom false text

/-- The characters of a text that are no blanks, each with whether it begins a word. -/
def solids (text : Text) : List (Char × Bool) :=
  solidsFrom true text

/-- Whether what stands behind a text begins a word. -/
def apartAfter (apart : Bool) (text : Text) : Bool :=
  text.foldl (fun _ c => isBlank c) apart

theorem solidsFrom_cons (apart : Bool) (c : Char) (text : Text) :
    solidsFrom apart (c :: text) =
      if isBlank c then solidsFrom true text else (c, apart) :: solidsFrom false text :=
  rfl

theorem apartAfter_cons (apart : Bool) (c : Char) (text : Text) :
    apartAfter apart (c :: text) = apartAfter (isBlank c) text := by
  rw [apartAfter, foldl_cons, ← apartAfter]

theorem solidsFrom_append (apart : Bool) (first second : Text) :
    solidsFrom apart (first ++ second) =
      solidsFrom apart first ++ solidsFrom (apartAfter apart first) second := by
  induction first generalizing apart with
  | nil => rfl
  | cons c first ih =>
    cases blank : isBlank c with
    | true | false => simp [solidsFrom_cons, apartAfter_cons, blank, ih]

theorem apartAfter_append (apart : Bool) (first second : Text) :
    apartAfter apart (first ++ second) = apartAfter (apartAfter apart first) second :=
  foldl_append

theorem solidsFrom_of_allBlank {gap : Text} (blank : allBlank gap = true) (apart : Bool) :
    solidsFrom apart gap = [] := by
  induction gap generalizing apart with
  | nil => rfl
  | cons c gap ih =>
    simp only [allBlank_cons, Bool.and_eq_true] at blank
    rw [solidsFrom_cons, if_pos blank.1, ih blank.2]

theorem apartAfter_of_allBlank {gap : Text} (blank : allBlank gap = true) (occupied : gap ≠ [])
    (apart : Bool) : apartAfter apart gap = true := by
  induction gap generalizing apart with
  | nil => exact absurd rfl occupied
  | cons c gap ih =>
    simp only [allBlank_cons, Bool.and_eq_true] at blank
    rw [apartAfter_cons, blank.1]
    cases gap with
    | nil => rfl
    | cons d gap => exact ih blank.2 (cons_ne_nil d gap) true

/-- The first character behind a blank begins a word. -/
theorem apart_of_solidsFrom {text : Text} {c : Char} {apart : Bool} {later : List (Char × Bool)}
    (first : solidsFrom true text = (c, apart) :: later) : apart = true := by
  induction text with
  | nil => cases first
  | cons d text ih =>
    rw [solidsFrom_cons] at first
    split at first
    · exact ih first
    · cases first
      rfl

theorem last_of_apartAfter {text : Text} (joined : apartAfter true text = false) :
    ∀ c ∈ text.getLast?, isBlank c = false := by
  rcases eq_nil_or_concat text with rfl | ⟨lead, c, rfl⟩
  · simp
  · simpa [apartAfter] using joined

theorem map_fst_solidsFrom (apart : Bool) (text : Text) :
    (solidsFrom apart text).map Prod.fst = squash text := by
  induction text generalizing apart with
  | nil => rfl
  | cons c text ih =>
    rw [solidsFrom_cons, squash_cons]
    split
    · exact ih true
    · rw [map_cons, ih]

theorem solids_trimLeft_append (text rest : Text) :
    solids (trimLeft text ++ rest) = solids (text ++ rest) := by
  obtain ⟨lead, blank, whole⟩ := exists_trimLeft text
  have apart : apartAfter true lead = true := by
    cases lead with
    | nil => rfl
    | cons c lead => exact apartAfter_of_allBlank blank (cons_ne_nil c lead) true
  have same : solids (text ++ rest) = solidsFrom true (lead ++ (trimLeft text ++ rest)) := by
    rw [← append_assoc, ← whole]
    rfl
  rw [same, solidsFrom_append, solidsFrom_of_allBlank blank, apart]
  rfl

theorem solids_trimLeft (text : Text) : solids (trimLeft text) = solids text := by
  simpa using solids_trimLeft_append text []

theorem solidsFrom_trimRight (apart : Bool) (text : Text) :
    solidsFrom apart (trimRight text) = solidsFrom apart text := by
  obtain ⟨tail, blank, whole⟩ := exists_trimRight text
  have same : solidsFrom apart text = solidsFrom apart (trimRight text ++ tail) := by rw [← whole]
  rw [same, solidsFrom_append, solidsFrom_of_allBlank blank, append_nil]

theorem solids_trimRight (text : Text) : solids (trimRight text) = solids text :=
  solidsFrom_trimRight true text

/-- A character and how it is spelled: as it is, or a letter in upper case. -/
def Recased (c image : Char) : Prop :=
  image = c ∨ c ∈ caseForms ∧ upperChar c = [image]

namespace Recased

variable {c image : Char}

theorem again (letter : c ∈ caseForms) (same : upperChar c = [image]) :
    image ∈ caseForms ∧ upperChar image = [image] := by
  obtain ⟨u, known, first, second, -⟩ := upperChar_of_mem_caseForms c letter
  obtain rfl : u = image := by simpa using first.symm.trans same
  exact ⟨known, second⟩

theorem trans {other : Char} (first : Recased c image) (second : Recased image other) :
    Recased c other := by
  rcases first with rfl | ⟨letter, same⟩
  · exact second
  · rcases second with rfl | ⟨-, next⟩
    · exact .inr ⟨letter, same⟩
    · exact .inr ⟨letter, same.trans ((again letter same).2.symm.trans next)⟩

theorem upperChar_eq (recased : Recased c image) : upperChar image = upperChar c := by
  rcases recased with rfl | ⟨letter, same⟩
  · rfl
  · exact (again letter same).2.trans same.symm

theorem eq_of_not_mem (recased : Recased c image) (other : image ∉ caseForms) : c = image := by
  rcases recased with rfl | ⟨letter, same⟩
  · rfl
  · exact absurd (again letter same).1 other

end Recased

instance : Std.Refl Recased :=
  ⟨fun _ => .inl rfl⟩

theorem upper_eq_of_recased {text result : Text} (recased : Forall₂ Recased text result) :
    upper result = upper text := by
  induction recased with
  | nil => rfl
  | cons here _ ih =>
    rw [upper, flatMap_cons, here.upperChar_eq]
    exact congrArg _ ih

/-- A character that stands for another one, and begins a word if that one does. -/
def StaysApart (source image : Char × Bool) : Prop :=
  Recased source.1 image.1 ∧ (source.2 = true → image.2 = true)

/-- A text with the characters of another one in their order, blanks apart and up to case, in
which none are next to each other that blanks separate there. -/
def Loosened (text result : Text) : Prop :=
  List.Forall₂ StaysApart (solids text) (solids result)

theorem StaysApart.trans {source image other : Char × Bool} (first : StaysApart source image)
    (second : StaysApart image other) : StaysApart source other := by
  constructor
  · exact first.1.trans second.1
  · exact fun begins => second.2 (first.2 begins)

theorem Loosened.recased {text result : Text} (loosened : Loosened text result) :
    Forall₂ Recased (squash text) (squash result) := by
  rw [← map_fst_solidsFrom true text, ← map_fst_solidsFrom true result, forall₂_map_left_iff,
    forall₂_map_right_iff]
  exact loosened.imp fun _ _ stays => stays.1

/-- A mark without letters that begins a loosened text begins the text itself, as no blanks
between its characters have gone. -/
theorem prefix_of_staysApart {mark text rest : Text} {apart image : Bool}
    (marks : ∀ c ∈ mark, isBlank c = false ∧ c ∉ caseForms)
    (begins : image = true → ∀ c ∈ text.head?, isBlank c = false)
    (stays : Forall₂ StaysApart (solidsFrom apart text) (solidsFrom image (mark ++ rest))) :
    mark <+: text := by
  induction mark generalizing text apart image with
  | nil => exact nil_prefix
  | cons c mark ih =>
    obtain ⟨solid, other⟩ := marks c mem_cons_self
    rw [cons_append, solidsFrom_cons, solid] at stays
    obtain ⟨⟨d, wordStart⟩, later, here, behind, first⟩ := forall₂_cons_right_iff.mp stays
    obtain rfl : d = c := here.1.eq_of_not_mem other
    cases text with
    | nil => cases first
    | cons e text =>
      rw [solidsFrom_cons] at first
      split at first
      next blank =>
        cases begins (here.2 (apart_of_solidsFrom first)) e rfl ▸ blank
      next =>
        cases first
        have quiet : ∀ c ∈ mark, isBlank c = false ∧ c ∉ caseForms :=
          fun c member => marks c (mem_cons_of_mem _ member)
        exact (prefix_cons_inj _).mpr (ih quiet (fun no => by cases no) behind)

/-- The last character of a text that ends with no blank, and what stands before it. -/
theorem exists_of_solids_concat {text : Text} {front : List (Char × Bool)} {c : Char} {apart : Bool}
    (solid : ∀ d ∈ text.getLast?, isBlank d = false) (same : solids text = front ++ [(c, apart)]) :
    ∃ lead, text = lead ++ [c] ∧ solids lead = front ∧ apartAfter true lead = apart := by
  rcases eq_nil_or_concat text with rfl | ⟨lead, d, rfl⟩
  · simp [solids, solidsFrom] at same
  · rw [concat_eq_append] at same solid
    have last : isBlank d = false := solid d getLast?_concat
    rw [solids, solidsFrom_append, solidsFrom_cons, last] at same
    obtain ⟨before, ends⟩ := append_inj' same rfl
    cases ends
    exact ⟨lead, concat_eq_append, before, rfl⟩

/-- A text that is loosened wherever it stands: behind a blank or not, and so that what
follows stays apart from it. -/
structure Loosens (text result : Text) : Prop where
  solids {apart image : Bool} (stays : apart = true → image = true) :
    List.Forall₂ StaysApart (solidsFrom apart text) (solidsFrom image result)
  ends {apart image : Bool} (stays : apart = true → image = true) :
    apartAfter apart text = true → apartAfter image result = true

namespace Loosens

variable {text result more other : Text}

theorem loosened (loosens : Loosens text result) : Loosened text result :=
  loosens.solids id

theorem nil : Loosens [] [] := by
  constructor
  · intro apart image _
    exact .nil
  · intro apart image stays
    exact stays

theorem append (first : Loosens text result) (second : Loosens more other) :
    Loosens (text ++ more) (result ++ other) := by
  constructor
  · intro apart image stays
    rw [solidsFrom_append, solidsFrom_append]
    exact rel_append (first.solids stays) (second.solids (first.ends stays))
  · intro apart image stays
    rw [apartAfter_append, apartAfter_append]
    exact second.ends (first.ends stays)

theorem trans {last : Text} (first : Loosens text result) (second : Loosens result last) :
    Loosens text last := by
  constructor
  · intro apart image stays
    exact forall₂_comp (fun _ _ _ one other => one.trans other) (first.solids id)
      (second.solids stays)
  · intro apart image stays before
    exact second.ends stays (first.ends id before)

theorem single (c : Char) : Loosens [c] [c] := by
  constructor
  · intro apart image stays
    rw [solidsFrom_cons, solidsFrom_cons]
    split
    · exact .nil
    · exact .cons ⟨.inl rfl, stays⟩ .nil
  · intro apart image stays before
    exact before

theorem refl (text : Text) : Loosens text text := by
  induction text with
  | nil => exact .nil
  | cons c text ih => exact (single c).append ih

theorem blank {gap : Text} (blank : allBlank gap = true) : Loosens [] gap := by
  constructor
  · intro apart image _
    rw [solidsFrom_of_allBlank blank]
    exact .nil
  · intro apart image stays before
    cases gap with
    | nil => exact stays before
    | cons c gap => exact apartAfter_of_allBlank blank (cons_ne_nil c gap) image

theorem gap {gap gap' : Text} (blank : allBlank gap = true) (blank' : allBlank gap' = true)
    (occupied : gap' ≠ []) : Loosens gap gap' := by
  constructor
  · intro apart image _
    rw [solidsFrom_of_allBlank blank, solidsFrom_of_allBlank blank']
    exact .nil
  · intro apart image _ _
    exact apartAfter_of_allBlank blank' occupied image

/-- Behind a blank one more blank does not count. -/
theorem of_blank {b : Char} (blank : isBlank b = true) (next : ∀ c ∈ text.head?, isBlank c = true)
    (occupied : text ≠ []) (loosens : Loosens text result) : Loosens (b :: text) result := by
  obtain ⟨c, rest, rfl⟩ := exists_cons_of_ne_nil occupied
  have again : isBlank c = true := next c rfl
  constructor
  · intro apart image stays
    have same : solidsFrom apart (b :: c :: rest) = solidsFrom apart (c :: rest) := by
      simp only [solidsFrom_cons, blank, again, if_true]
    rw [same]
    exact loosens.solids stays
  · intro apart image stays
    exact loosens.ends stays

/-- Letters can be written in upper case. -/
theorem upper_of_letters {word : Text} (letters : ∀ c ∈ word, c ∈ caseForms) :
    Loosens word (upper word) := by
  have solid {c : Char} (letter : c ∈ caseForms) : isBlank c = false := by
    cases blank : isBlank c with
    | false => rfl
    | true =>
      have word := isWord_of_mem_caseForms c letter
      rw [isWord_of_isBlank blank] at word
      cases word
  induction word with
  | nil => exact nil
  | cons c word ih =>
    have letter := letters c mem_cons_self
    obtain ⟨u, known, first, -⟩ := upperChar_of_mem_caseForms c letter
    have here : Loosens [c] [u] := by
      constructor
      · intro apart image stays
        rw [solidsFrom_cons, solidsFrom_cons, solid letter, solid known]
        exact .cons ⟨.inr ⟨letter, first⟩, stays⟩ .nil
      · intro apart image stays before
        rw [apartAfter_cons, solid letter] at before
        cases before
    have later := ih (forall_mem_cons.mp letters).2
    have whole := here.append later
    rwa [← first] at whole

end Loosens

end Text

namespace Sql

open Text

theorem Worded.loosens {text result : Text} (worded : Worded text result) :
    Loosens text result := by
  induction worded with
  | nil => exact .nil
  | @other c text result _ _ ih => exact (Loosens.single c).append ih
  | @phrase first gap second text result completes _ ih =>
    obtain ⟨letters, lettersSecond⟩ := completes.phrase.letters
    have space : Loosens gap [' '] := .gap completes.blank rfl (cons_ne_nil _ _)
    have behind := (Loosens.upper_of_letters lettersSecond).append ih
    exact (Loosens.upper_of_letters letters).append (space.append behind)
  | keyword _ _ known _ ih => exact (Loosens.upper_of_letters known.letters).append ih
  | @word word text result _ _ _ _ ih => exact (Loosens.refl word).append ih

theorem loosens_of_spaced {before : Option Char} {text result : Text}
    (spaced : Rewritten spacingAt before text result) : Loosens text result := by
  induction spaced with
  | nil => exact .nil
  | @plain before c text result _ _ ih => exact (Loosens.single c).append ih
  | @found before taken text replacement result _ present _ ih =>
    obtain ⟨-, rfl, -⟩ := exists_of_spacingAt present
    have space : Loosens [] [' '] := .blank rfl
    have around : Loosens ([] ++ (taken ++ [])) ([' '] ++ (taken ++ [' '])) :=
      space.append ((Loosens.refl taken).append space)
    rw [nil_append, append_nil] at around
    exact around.append ih

theorem loosens_squeezeSpaces (text : Text) : Loosens text (squeezeSpaces text) := by
  induction text with
  | nil => exact .nil
  | cons c text ih =>
    rw [squeezeSpaces]
    split
    next both =>
      simp only [Bool.and_eq_true, decide_eq_true_eq, beq_iff_eq] at both
      obtain ⟨rfl, space⟩ := both
      apply Loosens.of_blank isBlank_space _ _ ih
      · intro d head
        rw [space] at head
        cases head
        rfl
      · rintro rfl
        cases space
    next => exact (Loosens.single c).append ih

theorem loosens_spell (text : Text) : Loosens text (spell text) := by
  have keywords := (worded_spellKeywords text).loosens
  have operators := loosens_of_spaced (spaced_spaceOperators (spellKeywords text))
  exact (keywords.trans operators).trans (loosens_squeezeSpaces _)

theorem loosens_spellToken (token : Token) : Loosens token.content (spellToken token) := by
  cases token with
  | text content => exact loosens_spell content
  | atom content => exact .refl content

theorem loosens_tokens (tokens : List Token) :
    Loosens (written tokens) (tokens.flatMap spellToken) := by
  induction tokens with
  | nil => exact .nil
  | cons token tokens ih => exact (loosens_spellToken token).append ih

/-- Blanks are dropped at the ends of a spelled line only. -/
theorem loosened_spellLine (pending : Option Text) (line : Text) :
    Loosened line (spellLine pending line).1 := by
  have loosened := (loosens_tokens (tokenize false pending line).1).loosened
  have same : solids (spellLine pending line).1 =
      solids ((tokenize false pending line).1.flatMap spellToken) := by
    simp only [spellLine]
    split <;> split <;> simp only [solids_trimLeft, solids_trimRight]
  rw [written_tokenize] at loosened
  rwa [Loosened, same]

end Sql

end LookML
