import LookML.Proofs.Occurrences
import LookML.Proofs.Scanning

/-!
# One scan of many lines

A segment is cut into tokens line by line, where an atom that a line leaves open is carried
over to the next one.  Its characters belong to plain text and to atoms as if all lines, joined
by line feeds, were scanned at once: outside of atoms the first opener begins one, and an atom
goes through the first closer behind its opener, wherever that stands.
-/

namespace LookML

open List

variable {tail : Text} {tokens : List Token}

namespace Text

variable {mark text : Text}

/-- A mark that does not occur in a text is looked for behind it, when the next character is
none of the mark. -/
theorem cut?_append_of_none (absent : cut? mark text = none) (apart : ∀ c ∈ tail.head?, c ∉ mark) :
    cut? mark (text ++ tail) = (cut? mark tail).map fun cut => (text ++ cut.1, cut.2) := by
  induction text with
  | nil =>
    rw [nil_append]
    cases cut? mark tail <;> rfl
  | cons c text ih =>
    rw [cut?] at absent
    split at absent
    · cases absent
    next unmarked =>
      have unfound : after? mark (c :: (text ++ tail)) = none := by
        apply after?_eq_none_iff.mpr
        intro rest same
        have split : mark ++ rest = (c :: text) ++ tail := same.symm
        rcases append_eq_append_iff.mp split with ⟨more, split, -⟩ | ⟨more, split, behind⟩
        · exact after?_eq_none_iff.mp unmarked more split
        · cases more with
          | nil => exact after?_eq_none_iff.mp unmarked [] (by simp [split])
          | cons d more =>
            apply apart d
            · rw [behind]
              rfl
            · rw [split]
              simp
      rw [cons_append, cut?, unfound, ih (Option.map_eq_none_iff.mp absent)]
      cases cut? mark tail <;> rfl

end Text

namespace Sql

open Text

/-- What a character belongs to. -/
inductive Label where
  | text
  | atom
  deriving Repr, DecidableEq

namespace Label

/-- The characters of a text, all with the same label. -/
def all (label : Label) (text : Text) : List (Char × Label) :=
  text.map fun c => (c, label)

@[simp] theorem all_nil (label : Label) : label.all [] = [] := rfl

@[simp] theorem all_cons (label : Label) (c : Char) (text : Text) :
    label.all (c :: text) = (c, label) :: label.all text := rfl

@[simp] theorem all_append (label : Label) (first second : Text) :
    label.all (first ++ second) = label.all first ++ label.all second :=
  map_append

@[simp] theorem map_fst_all (label : Label) (text : Text) :
    (label.all text).map Prod.fst = text := by
  rw [all, map_map]
  exact map_id text

end Label

/-- The characters of a token with its label. -/
def Token.labelled : Token → List (Char × Label)
  | .text content => Label.text.all content
  | .atom content => Label.atom.all content

/-- How far an atom reaches in a text of many lines that begins with its opener: through the
first closer behind the opener, or up to the end of its line if it ends there, and else to the
end of the text. -/
def atomReach (delimiter : Delimiter) (text : Text) : Nat :=
  match cut? delimiter.closer (text.drop delimiter.opener.length) with
  | some (body, _) =>
    if delimiter.closer = lineEnd then (delimiter.opener ++ body).length
    else (delimiter.opener ++ body ++ delimiter.closer).length
  | none => text.length

/-- The characters of a text of many lines with their labels, in one scan from left to
right. -/
def label (delimiters : List Delimiter) : Text → List (Char × Label)
  | [] => []
  | c :: text =>
    match opening? delimiters (c :: text) with
    | none => (c, .text) :: label delimiters text
    | some delimiter =>
      let reach := atomReach delimiter (c :: text)
      Label.atom.all (c :: text.take (reach - 1)) ++ label delimiters (text.drop (reach - 1))
  termination_by text => text.length
  decreasing_by
    · simp
    · simp only [length_drop, length_cons]
      omega

/-- The tokens of each of a list of lines, given the closer of an atom that is open before
them. -/
def tokenizeLines (markup : Bool) : Option Text → List Text → List (List Token)
  | _, [] => []
  | pending, line :: lines =>
    let scanned := tokenize markup pending line
    scanned.1 :: tokenizeLines markup scanned.2 lines

/-- The labels of a text that begins inside an atom. -/
def labelInside (delimiters : List Delimiter) (closer text : Text) : List (Char × Label) :=
  match cut? closer text with
  | some (body, rest) =>
    if closer = lineEnd then Label.atom.all body ++ label delimiters (closer ++ rest)
    else Label.atom.all (body ++ closer) ++ label delimiters rest
  | none => Label.atom.all text

/-- The labels of a text, given the closer of an atom that is open before it. -/
def labelFrom (delimiters : List Delimiter) : Option Text → Text → List (Char × Label)
  | none, text => label delimiters text
  | some closer, text => labelInside delimiters closer text

section Whole

variable {markup : Bool}

/-- An opener is followed by the inside of its atom. -/
theorem label_opener {delimiter : Delimiter} (known : delimiter ∈ delimiters markup) (text : Text) :
    label (delimiters markup) (delimiter.opener ++ text) =
      Label.atom.all delimiter.opener ++ labelInside (delimiters markup) delimiter.closer text := by
  obtain ⟨c, more, shape, -⟩ := exists_opener known
  have opens := opening?_of_mem known text
  have behind : (delimiter.opener ++ text).drop delimiter.opener.length = text := drop_left
  have step : label (delimiters markup) (delimiter.opener ++ text) =
      Label.atom.all
          (c :: (more ++ text).take (atomReach delimiter (delimiter.opener ++ text) - 1)) ++
        label (delimiters markup)
          ((more ++ text).drop (atomReach delimiter (delimiter.opener ++ text) - 1)) := by
    rw [shape, cons_append] at opens ⊢
    rw [label, opens]
  rw [step, atomReach, behind, labelInside]
  cases found : cut? delimiter.closer text with
  | none =>
    have reach : (delimiter.opener ++ text).length - 1 = (more ++ text).length := by simp [shape]
    dsimp only
    rw [reach, take_length, drop_length, label, shape]
    simp
  | some cut =>
    obtain ⟨body, rest⟩ := cut
    have whole := (cut?_eq_some_iff.mp found).text_eq
    dsimp only
    split
    · have reach : (delimiter.opener ++ body).length - 1 = (more ++ body).length := by
        simp [shape]
      rw [reach, whole, ← append_assoc, take_left, drop_left, shape]
      simp
    · have reach : (delimiter.opener ++ body ++ delimiter.closer).length - 1 =
          (more ++ body ++ delimiter.closer).length := by
        simp [shape]
      rw [reach, whole, ← append_assoc, ← append_assoc, take_left, drop_left, shape]
      simp

/-- No atom begins in a calm text. -/
theorem label_append_of_calm {content rest : Text} (calm : Calm markup rest.head? content) :
    label (delimiters markup) (content ++ rest) =
      Label.text.all content ++ label (delimiters markup) rest := by
  induction content with
  | nil => rfl
  | cons c content ih =>
    have quiet : opening? (delimiters markup) (c :: (content ++ rest)) = none := by
      rw [opening?_eq_none_iff, head?_append]
      exact calm.1
    rw [cons_append, label, quiet]
    exact congrArg ((c, Label.text) :: ·) (ih calm.2)

theorem map_fst_label (delimiters : List Delimiter) (text : Text) :
    (label delimiters text).map Prod.fst = text := by
  fun_induction label delimiters text with
  | case1 => rfl
  | case2 c text _ ih => rw [map_cons, ih]
  | case3 c text delimiter _ reach ih =>
    rw [map_append, ih, Label.map_fst_all, cons_append, take_append_drop]

/-- A text at the end of a line. -/
def AtBreak (text : Text) : Prop :=
  ∀ c ∈ text.head?, c = '\n'

theorem atBreak_feedLines (lines : List Text) : AtBreak (feedLines lines) := by
  cases lines with
  | nil => exact fun c head => nomatch head
  | cons line lines =>
    intro c head
    exact (Option.some.inj head).symm

theorem inert_of_atBreak (ends : AtBreak tail) : ∀ c ∈ tail.head?, inert c = true := by
  intro c head
  rw [ends c head]
  rfl

/-- A calm text stays calm before a character that no opener holds. -/
theorem Calm.before_inert {content : Text} (calm : Calm markup none content)
    (plain : ∀ c ∈ tail.head?, inert c = true) : Calm markup tail.head? content := by
  induction content with
  | nil => trivial
  | cons c content ih =>
    refine ⟨?_, ih calm.2⟩
    cases content with
    | cons d content => exact calm.1
    | nil =>
      cases head : tail.head? with
      | none => exact calm.1
      | some d => exact begins_of_inert_next calm.1 (plain d head)

/-- What closes an atom that can go on over several lines. -/
structure CarriesOver (closer : Text) : Prop where
  occupied : closer ≠ []
  feedless : '\n' ∉ closer

theorem CarriesOver.ne_lineEnd {closer : Text} (carries : CarriesOver closer) :
    closer ≠ lineEnd := by
  rintro rfl
  exact carries.feedless mem_cons_self

theorem carriesOver_closer {delimiter : Delimiter} (known : delimiter ∈ delimiters markup)
    (other : delimiter.closer ≠ lineEnd) : CarriesOver delimiter.closer := by
  have each : ∀ delimiter ∈ sqlDelimiters, delimiter.closer ≠ lineEnd →
      delimiter.closer ≠ [] ∧ '\n' ∉ delimiter.closer := by
    decide
  obtain ⟨occupied, feedless⟩ := each delimiter (mem_sqlDelimiters known) other
  exact ⟨occupied, feedless⟩

section Inside

variable {closer line body rest : Text}

/-- An atom that a line closes. -/
theorem labelInside_of_closed (closes : throughCloser? closer line = some (body, rest))
    (tail : Text) :
    labelInside (delimiters markup) closer (line ++ tail) =
      Label.atom.all body ++ label (delimiters markup) (rest ++ tail) := by
  obtain ⟨other, inner, rfl, found⟩ := throughCloser?_eq_some_iff.mp closes
  rw [labelInside, cut?_eq_some_iff.mpr (found.append tail)]
  exact if_neg other

/-- An atom that a line leaves open goes on behind it. -/
theorem labelInside_of_open (carries : CarriesOver closer)
    (remains : throughCloser? closer line = none)
    (ends : AtBreak tail) :
    labelInside (delimiters markup) closer (line ++ tail) =
      Label.atom.all line ++ labelInside (delimiters markup) closer tail := by
  have other := carries.ne_lineEnd
  rw [throughCloser?_eq_none_iff other] at remains
  have apart : ∀ c ∈ tail.head?, c ∉ closer := by
    intro c head
    rw [ends c head]
    exact carries.feedless
  rw [labelInside, cut?_append_of_none remains apart, labelInside]
  cases cut? closer tail with
  | none => exact Label.all_append _ line tail
  | some cut => simp [other]

/-- An atom that ends with its line. -/
theorem labelInside_lineEnd (single : '\n' ∉ line) (ends : AtBreak tail) :
    labelInside (delimiters markup) lineEnd (line ++ tail) =
      Label.atom.all line ++ label (delimiters markup) tail := by
  have absent : cut? lineEnd line = none := by
    apply cut?_eq_none_iff.mpr
    rintro lead behind rfl
    simp [lineEnd] at single
  cases tail with
  | nil => simp [labelInside, absent, label]
  | cons c tail =>
    obtain rfl : c = '\n' := ends c rfl
    have found : cut? lineEnd (line ++ '\n' :: tail) = some (line, tail) :=
      cut?_eq_some_iff.mpr (firstCut_of_not_mem single tail)
    rw [labelInside, found]
    rfl

end Inside

/-- The tokens of a line outside atoms label it, and what they leave open labels what stands
behind it. -/
theorem Scanned.label_eq {still : Option Text}
    (scanned : Scanned markup tokens still) (single : '\n' ∉ written tokens) (ends : AtBreak tail) :
    label (delimiters markup) (written tokens ++ tail) =
      tokens.flatMap Token.labelled ++ labelFrom (delimiters markup) still tail := by
  induction scanned with
  | nil => rfl
  | @text content tokens still _ calm _ rest ih =>
    rw [written_cons, Token.content] at single
    have behind := ih fun member => single (mem_append_right _ member)
    have quiet : Calm markup (written tokens ++ tail).head? content := by
      cases tokens with
      | nil => exact calm.before_inert (inert_of_atBreak ends)
      | cons token tokens =>
        rw [head?_append_of_ne_nil _ rest.written_ne_nil]
        exact calm
    rw [written_cons, Token.content, append_assoc, label_append_of_calm quiet, behind,
      flatMap_cons, append_assoc]
    rfl
  | @closed delimiter body tokens still known closes rest ih =>
    rw [written_cons, Token.content] at single
    have behind := ih fun member => single (mem_append_right _ member)
    rw [written_cons, Token.content, append_assoc, append_assoc, label_opener known,
      labelInside_of_closed closes, nil_append, behind]
    simp [Token.labelled]
  | @opened delimiter body known remains =>
    rw [written_cons, Token.content, written_nil, append_nil] at single ⊢
    rw [append_assoc, label_opener known]
    split
    next lineEnd_ =>
      have inner : '\n' ∉ body := fun member => single (mem_append_right _ member)
      rw [lineEnd_, labelInside_lineEnd inner ends]
      simp [Token.labelled, labelFrom]
    next other =>
      rw [labelInside_of_open (carriesOver_closer known other) remains ends]
      simp [Token.labelled, labelFrom]

theorem Scanned.carriesOver {still : Option Text}
    (scanned : Scanned markup tokens still) : ∀ closer ∈ still, CarriesOver closer := by
  induction scanned with
  | nil => exact fun _ open_ => nomatch open_
  | text _ _ _ _ ih | closed _ _ _ ih => exact ih
  | opened known _ =>
    intro closer open_
    split at open_
    · cases open_
    next other =>
      cases open_
      exact carriesOver_closer known other

end Whole

section Lines

variable {markup : Bool} {pending : Option Text}

theorem label_scan {line : Text} (single : '\n' ∉ line) (ends : AtBreak tail) :
    label (delimiters markup) (line ++ tail) =
      (scan (delimiters markup) line).1.flatMap Token.labelled ++
        labelFrom (delimiters markup) (scan (delimiters markup) line).2 tail := by
  have whole := written_scan markup line
  have scanned := (scanned_scan markup line).label_eq (by rwa [whole]) ends
  rwa [whole] at scanned

/-- One line: its tokens label it, and the scan goes on behind it in the state that they
leave. -/
theorem labelFrom_line (carries : ∀ closer ∈ pending, CarriesOver closer) {line : Text}
    (single : '\n' ∉ line) (ends : AtBreak tail) :
    labelFrom (delimiters markup) pending (line ++ tail) =
      (tokenize markup pending line).1.flatMap Token.labelled ++
        labelFrom (delimiters markup) (tokenize markup pending line).2 tail := by
  cases pending with
  | none => exact label_scan single ends
  | some closer =>
    rw [labelFrom, tokenize]
    cases closes : throughCloser? closer line with
    | none =>
      rw [labelInside_of_open (carries closer rfl) closes ends]
      simp [Token.labelled, labelFrom]
    | some cut =>
      obtain ⟨body, rest⟩ := cut
      have inner : '\n' ∉ rest := by
        rw [throughCloser?_eq_some closes] at single
        exact fun member => single (mem_append_right _ member)
      rw [labelInside_of_closed closes, label_scan inner ends]
      simp [Token.labelled]

theorem carriesOver_tokenize (carries : ∀ closer ∈ pending, CarriesOver closer) (line : Text) :
    ∀ closer ∈ (tokenize markup pending line).2, CarriesOver closer := by
  unfold tokenize
  split
  · exact (scanned_scan markup line).carriesOver
  · split
    · exact carries
    next rest _ => exact (scanned_scan markup rest).carriesOver

/-- Labelled characters without the line feeds. -/
def withoutFeeds (labelled : List (Char × Label)) : List (Char × Label) :=
  labelled.filter fun character => character.1 != '\n'

theorem withoutFeeds_append (first second : List (Char × Label)) :
    withoutFeeds (first ++ second) = withoutFeeds first ++ withoutFeeds second :=
  filter_append ..

theorem withoutFeeds_labelled (single : '\n' ∉ written tokens) :
    withoutFeeds (tokens.flatMap Token.labelled) = tokens.flatMap Token.labelled := by
  apply filter_eq_self.mpr
  intro character member
  obtain ⟨token, inTokens, inToken⟩ := mem_flatMap.mp member
  have inContent : character.1 ∈ token.content := by
    cases token <;>
      · obtain ⟨c, inText, rfl⟩ := mem_map.mp inToken
        exact inText
  rw [bne_iff_ne]
  intro feed
  rw [feed] at inContent
  exact single (mem_flatMap.mpr ⟨token, inTokens, inContent⟩)

theorem withoutFeeds_feed (label : Label) (labelled : List (Char × Label)) :
    withoutFeeds (('\n', label) :: labelled) = withoutFeeds labelled :=
  rfl

theorem withoutFeeds_label (text : Text) :
    withoutFeeds (label (delimiters markup) ('\n' :: text)) =
      withoutFeeds (label (delimiters markup) text) := by
  have quiet : opening? (delimiters markup) ('\n' :: text) = none :=
    opening?_eq_none_iff.mpr (begins_of_inert rfl _)
  rw [label, quiet]
  exact withoutFeeds_feed .text _

/-- The line feed between two lines changes nothing about the atom that is open. -/
theorem withoutFeeds_labelFrom (carries : ∀ closer ∈ pending, CarriesOver closer) (text : Text) :
    withoutFeeds (labelFrom (delimiters markup) pending ('\n' :: text)) =
      withoutFeeds (labelFrom (delimiters markup) pending text) := by
  cases pending with
  | none => exact withoutFeeds_label text
  | some closer =>
    have open_ := carries closer rfl
    have skipped : cut? closer ('\n' :: text) =
        (cut? closer text).map fun cut => ('\n' :: cut.1, cut.2) := by
      obtain ⟨d, more, rfl⟩ := exists_cons_of_ne_nil open_.occupied
      have other : d ≠ '\n' := by
        rintro rfl
        exact open_.feedless mem_cons_self
      rw [cut?, after?, if_neg other]
    rw [labelFrom, labelFrom, labelInside, skipped, labelInside]
    cases cut? closer text with
    | none => exact withoutFeeds_feed .atom _
    | some cut =>
      simp only [Option.map_some, if_neg open_.ne_lineEnd]
      exact withoutFeeds_feed .atom _

theorem labelFrom_nil (carries : ∀ closer ∈ pending, CarriesOver closer) :
    labelFrom (delimiters markup) pending [] = [] := by
  cases pending with
  | none => rw [labelFrom, label]
  | some closer =>
    obtain ⟨d, more, rfl⟩ := exists_cons_of_ne_nil (carries closer rfl).occupied
    rfl

/-- All lines: the tokens of each line label it as the scan of the joined lines does. -/
theorem withoutFeeds_feedLines (carries : ∀ closer ∈ pending, CarriesOver closer)
    {lines : List Text} (single : ∀ line ∈ lines, '\n' ∉ line) :
    withoutFeeds (labelFrom (delimiters markup) pending (feedLines lines)) =
      (tokenizeLines markup pending lines).flatten.flatMap Token.labelled := by
  induction lines generalizing pending with
  | nil =>
    rw [feedLines_nil, labelFrom_nil carries]
    rfl
  | cons line lines ih =>
    have here := single line mem_cons_self
    have unbroken : '\n' ∉ written (tokenize markup pending line).1 := by
      rwa [written_tokenize]
    have later : ∀ closer ∈ (tokenize markup pending line).2, CarriesOver closer :=
      carriesOver_tokenize carries line
    rw [feedLines_cons, withoutFeeds_labelFrom carries,
      labelFrom_line carries here (atBreak_feedLines lines), withoutFeeds_append,
      withoutFeeds_labelled unbroken, tokenizeLines, flatten_cons, flatMap_append]
    apply congrArg
    exact ih later (forall_mem_cons.mp single).2

theorem written_tokenizeLines (markup : Bool) (pending : Option Text) (lines : List Text) :
    (tokenizeLines markup pending lines).map written = lines := by
  induction lines generalizing pending with
  | nil => rfl
  | cons line lines ih => rw [tokenizeLines, map_cons, written_tokenize, ih]

end Lines

/-- Lines cut into tokens one after another are labelled as one scan of the joined lines labels
them: every token writes its part of its line, and every character of a line belongs to plain
text or to an atom as in that scan. -/
theorem label_joinLines (markup : Bool) {lines : List Text} (single : ∀ line ∈ lines, '\n' ∉ line) :
    (tokenizeLines markup none lines).map written = lines ∧
      (label (delimiters markup) (joinLines lines)).map Prod.fst = joinLines lines ∧
      withoutFeeds (label (delimiters markup) (joinLines lines)) =
        (tokenizeLines markup none lines).flatten.flatMap Token.labelled := by
  refine ⟨written_tokenizeLines markup none lines, map_fst_label _ _, ?_⟩
  rw [← withoutFeeds_feedLines (by simp) single]
  cases lines with
  | nil => rfl
  | cons line lines =>
    rw [joinLines_cons, feedLines_cons, labelFrom, withoutFeeds_label]

/-- A quoted text goes on over a line that would begin with a comment outside of it. -/
theorem label_joinLines_quoted :
    (∀ line ∈ ["a 'b".toList, "-- c' d".toList], '\n' ∉ line) ∧
      withoutFeeds (label (delimiters false) (joinLines ["a 'b".toList, "-- c' d".toList])) =
        Label.text.all "a ".toList ++ Label.atom.all "'b-- c'".toList ++
          Label.text.all " d".toList := by
  have single : ∀ line ∈ ["a 'b".toList, "-- c' d".toList], '\n' ∉ line := by decide
  refine ⟨single, ?_⟩
  rw [(label_joinLines false single).2.2]
  decide +kernel

end Sql

end LookML
