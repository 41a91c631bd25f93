import LookML.Proofs.Occurrences
import LookML.Proofs.Restyling
import LookML.Proofs.SegmentLines

/-!
# Atoms of a segment

The lines of a segment are cut into tokens one after another, where an atom that a line
leaves open goes on in the next one.  Template tags, substitutions and quoted texts found
that way stand in the laid out segment with the same characters and in the same order, line
breaks and blank lines included, also the last one if nothing closes it before the terminator.
Three things can spoil this: blanks behind the first line when an atom is open there, a line
that looks like a comment and leaves an atom open, and blanks before the terminator that are
further in than the segment when an atom is open there.
-/

namespace LookML

open Text Code List

namespace Sql

variable {text : Text} {atom : Option OpenAtom}

/-- The text of an atom, unless it is a comment. -/
def Token.kept? : Token → Option Text
  | .text _ => none
  | .atom content => if ['-', '-'].isPrefixOf content then none else some content

/-- Tokens of which the first goes on with an atom from the lines before. -/
def Token.resume (held : Text) : List Token → List Token
  | .atom content :: tokens => .atom (held ++ '\n' :: content) :: tokens
  | tokens => tokens

/-- An atom that is open at the end of a line: its text so far, and what closes it. -/
structure OpenAtom where
  text : Text
  closer : Text
  deriving Repr, DecidableEq

namespace OpenAtom

/-- The text of the atom that may be open. -/
def held (atom : Option OpenAtom) : Text :=
  (atom.map OpenAtom.text).getD []

/-- The tokens of a line where an atom may be open, and the closer of the atom still open
at its end. -/
def scanLine (markup : Bool) (atom : Option OpenAtom) (line : Text) : List Token × Option Text :=
  match atom with
  | none => tokenize markup none line
  | some atom =>
    let scanned := tokenize markup (some atom.closer) line
    (Token.resume atom.text scanned.1, scanned.2)

@[simp] theorem scanLine_none (markup : Bool) (line : Text) :
    scanLine markup none line = tokenize markup none line :=
  rfl

/-- The atom that a line leaves open. -/
def left? (tokens : List Token) (still : Option Text) : Option OpenAtom :=
  still.bind fun closer => tokens.getLast?.map fun token => ⟨token.content, closer⟩

/-- The atoms that end on a line, comments apart. -/
def ended (tokens : List Token) (still : Option Text) : List Text :=
  (if still.isNone then tokens else tokens.dropLast).filterMap Token.kept?

end OpenAtom

open OpenAtom

/-- The atoms that lines hold, comments apart, given the atom that is open before them.  The
last one may still be open behind them. -/
def atoms (markup : Bool) : Option OpenAtom → List Text → List Text
  | atom, [] => atom.toList.map OpenAtom.text
  | atom, line :: lines =>
    let scanned := scanLine markup atom line
    ended scanned.1 scanned.2 ++ atoms markup (left? scanned.1 scanned.2) lines

/-- What lines leave open: an atom that begins with no blank and can be closed. -/
structure OpenAtom.Proper (atom : OpenAtom) : Prop where
  begun : Begun atom.text
  closer : IsCloser atom.closer

/-- A text that shows the atoms which end among tokens, and ends with the atom that they
leave open. -/
def Carries (tokens : List Token) (still : Option Text) (text : Text) : Prop :=
  ∃ front, InOrder (ended tokens still) front ∧ text = front ++ held (left? tokens still)

namespace Carries

variable {tokens : List Token} {still : Option Text}

theorem behind (lead : Text) (carries : Carries tokens still text) :
    Carries tokens still (lead ++ text) := by
  obtain ⟨front, ordered, rfl⟩ := carries
  exact ⟨lead ++ front, ordered.behind lead, (append_assoc ..).symm⟩

/-- Any spelling of tokens that writes atoms as they are. -/
theorem of_flatMap (spelling : Token → Text) (atoms : ∀ content, spelling (.atom content) = content)
    (ends : still.isSome = true → ∃ front last, tokens = front ++ [.atom last]) :
    Carries tokens still (tokens.flatMap spelling) := by
  have ordered (tokens : List Token) :
      InOrder (tokens.filterMap Token.kept?) (tokens.flatMap spelling) := by
    induction tokens with
    | nil => exact .nil _
    | cons token tokens ih =>
      rw [flatMap_cons]
      cases token with
      | text content => exact ih.behind _
      | atom content =>
        rw [filterMap_cons, atoms, Token.kept?]
        split
        next skipped =>
          split at skipped
          · exact ih.behind _
          · cases skipped
        next kept =>
          split at kept
          · cases kept
          · cases kept
            exact .cons [] content ih
  cases still with
  | none => exact ⟨_, ordered tokens, (append_nil _).symm⟩
  | some closer =>
    obtain ⟨front, last, rfl⟩ := ends rfl
    refine ⟨front.flatMap spelling, ?_, ?_⟩
    · simpa [ended] using ordered front
    · simp [held, left?, atoms, Token.content]

theorem trimLeft (compact : ∀ part ∈ ended tokens still, Compact part)
    (proper : ∀ atom ∈ left? tokens still, atom.Proper)
    (carries : Carries tokens still text) : Carries tokens still (trimLeft text) := by
  obtain ⟨front, ordered, rfl⟩ := carries
  refine ⟨Text.trimLeft front, ordered.trimLeft fun part known => (compact part known).begun, ?_⟩
  cases open_ : left? tokens still with
  | none => simp [held]
  | some atom =>
    obtain ⟨c, rest, shape, first⟩ := (proper atom open_).begun
    have begins : held (some atom) = c :: rest := shape
    rw [begins, trimLeft_append_of_solid first]

theorem trimRight (compact : ∀ part ∈ ended tokens none, Compact part)
    (carries : Carries tokens none text) : Carries tokens none (trimRight text) := by
  obtain ⟨front, ordered, rfl⟩ := carries
  have whole : front ++ held (left? tokens none) = front := append_nil front
  rw [whole]
  exact ⟨_, ordered.trimRight compact, (append_nil _).symm⟩

end Carries

section Proper

variable {markup : Bool} {tokens : List Token} {still : Option Text}

theorem ended_cons (token : Token) (goesOn : still.isSome = true → tokens ≠ []) :
    ended (token :: tokens) still = token.kept?.toList ++ ended tokens still := by
  have kept (tokens : List Token) : (token :: tokens).filterMap Token.kept? =
      token.kept?.toList ++ tokens.filterMap Token.kept? := by
    cases found : token.kept? <;> simp [found]
  cases still with
  | none => exact kept tokens
  | some closer =>
    have shape : (token :: tokens).dropLast = token :: tokens.dropLast :=
      dropLast_cons_of_ne_nil (goesOn rfl)
    simp only [ended, Option.isNone_some, Bool.false_eq_true, if_false, shape, kept]

theorem left?_cons (token : Token) (goesOn : still.isSome = true → tokens ≠ []) :
    left? (token :: tokens) still = left? tokens still := by
  cases still with
  | none => rfl
  | some closer =>
    obtain ⟨next, later, rfl⟩ := exists_cons_of_ne_nil (goesOn rfl)
    simp [left?]

/-- An atom ends with a character that is no blank. -/
theorem solid_of_throughCloser? {closer body rest : Text} (known : IsCloser closer)
    (closes : throughCloser? closer text = some (body, rest)) :
    body ≠ [] ∧ ∀ c ∈ body.getLast?, isBlank c = false := by
  obtain ⟨other, inner, rfl, -⟩ := throughCloser?_eq_some_iff.mp closes
  obtain ⟨occupied, solid⟩ := known.ends other
  refine ⟨fun empty => occupied (append_eq_nil_iff.mp empty).2, fun c last => ?_⟩
  rw [getLast?_append_of_ne_nil _ occupied] at last
  exact solid c last

/-- The last token of a line that leaves an atom open is that atom. -/
theorem Scanned.ends (scanned : Scanned markup tokens still) (open_ : still.isSome = true) :
    ∃ front last, tokens = front ++ [.atom last] := by
  induction scanned with
  | nil => cases open_
  | @text content tokens _ _ _ _ _ ih =>
    obtain ⟨front, last, rfl⟩ := ih open_
    exact ⟨.text content :: front, last, rfl⟩
  | @closed delimiter body tokens _ _ _ _ ih =>
    obtain ⟨front, last, rfl⟩ := ih open_
    exact ⟨.atom (delimiter.opener ++ body) :: front, last, rfl⟩
  | opened => exact ⟨[], _, rfl⟩

theorem Scanned.goesOn (scanned : Scanned markup tokens still) (open_ : still.isSome = true) :
    tokens ≠ [] := by
  obtain ⟨front, last, rfl⟩ := scanned.ends open_
  simp

theorem eq_atom_of_kept? {token : Token} {part : Text} (kept : part ∈ token.kept?.toList) :
    token = .atom part := by
  cases token with
  | text => cases kept
  | atom content =>
    rw [Token.kept?] at kept
    split at kept
    · cases kept
    · rw [mem_singleton.mp kept]

theorem Scanned.proper (scanned : Scanned markup tokens still) :
    (∀ part ∈ ended tokens still, Compact part) ∧ ∀ atom ∈ left? tokens still, atom.Proper := by
  have begun {delimiter : Delimiter} (known : delimiter ∈ delimiters markup) (body : Text) :
      Begun (delimiter.opener ++ body) := by
    obtain ⟨c, more, shape, solid⟩ := exists_opener known
    exact Begun.append ⟨c, more, shape, solid⟩ body
  induction scanned with
  | nil => simp [ended, left?]
  | text _ _ _ rest ih =>
    rw [ended_cons _ rest.goesOn, left?_cons _ rest.goesOn]
    exact ih
  | @closed delimiter body tokens still known closes rest ih =>
    rw [ended_cons _ rest.goesOn, left?_cons _ rest.goesOn]
    refine ⟨forall_mem_append.mpr ⟨fun part here => ?_, ih.1⟩, ih.2⟩
    cases eq_atom_of_kept? here
    obtain ⟨occupied, last⟩ := solid_of_throughCloser? ⟨_, mem_sqlDelimiters known, rfl⟩ closes
    refine ⟨begun known body, ?_⟩
    rw [getLast?_append_of_ne_nil _ occupied]
    exact last
  | @opened delimiter body known remains =>
    split
    next comment =>
      simp [ended, left?, Token.kept?, opener_of_lineEnd known comment]
    next =>
      refine ⟨by simp [ended], fun atom left => ?_⟩
      obtain rfl : ⟨delimiter.opener ++ body, delimiter.closer⟩ = atom := by
        simpa [left?, Token.content] using left
      exact ⟨begun known body, ⟨_, mem_sqlDelimiters known, rfl⟩⟩

/-- A line inside an atom: the atom goes on, or it ends and the rest is cut anew. -/
theorem scanLine_some (markup : Bool) (atom : OpenAtom) (line : Text) :
    (throughCloser? atom.closer line = none ∧ scanLine markup (some atom) line =
        ([.atom (atom.text ++ '\n' :: line)], some atom.closer)) ∨
      ∃ body rest, throughCloser? atom.closer line = some (body, rest) ∧
        scanLine markup (some atom) line =
          (.atom (atom.text ++ '\n' :: body) :: (scan (delimiters markup) rest).1,
            (scan (delimiters markup) rest).2) := by
  cases closes : throughCloser? atom.closer line with
  | none => exact .inl ⟨rfl, by simp [scanLine, tokenize, closes, Token.resume]⟩
  | some cut =>
    refine .inr ⟨cut.1, cut.2, rfl, ?_⟩
    simp [scanLine, tokenize, closes, Token.resume]

theorem scanLine_ends (markup : Bool) (atom : Option OpenAtom) (line : Text)
    (open_ : (scanLine markup atom line).2.isSome = true) :
    ∃ front last, (scanLine markup atom line).1 = front ++ [.atom last] := by
  cases atom with
  | none => exact (scanned_scan markup line).ends open_
  | some atom =>
    rcases scanLine_some markup atom line with ⟨-, same⟩ | ⟨body, rest, -, same⟩
    · rw [same]
      exact ⟨[], _, rfl⟩
    · rw [same] at open_ ⊢
      obtain ⟨front, last, shape⟩ := (scanned_scan markup rest).ends open_
      exact ⟨.atom (atom.text ++ '\n' :: body) :: front, last, by rw [shape]; rfl⟩

theorem closer_left? (markup : Bool) (atom : Option OpenAtom) (line : Text) :
    (left? (scanLine markup atom line).1 (scanLine markup atom line).2).map OpenAtom.closer =
      (scanLine markup atom line).2 := by
  cases still : (scanLine markup atom line).2 with
  | none => rfl
  | some closer =>
    obtain ⟨front, last, shape⟩ := scanLine_ends markup atom line (by rw [still]; rfl)
    simp [left?, shape]

theorem proper_scanLine (markup : Bool) (proper : ∀ held ∈ atom, held.Proper)
    (line : Text) :
    (∀ part ∈ ended (scanLine markup atom line).1 (scanLine markup atom line).2, Compact part) ∧
      ∀ held ∈ left? (scanLine markup atom line).1 (scanLine markup atom line).2, held.Proper := by
  cases atom with
  | none => exact (scanned_scan markup line).proper
  | some atom =>
    have sound := proper atom rfl
    rcases scanLine_some markup atom line with ⟨-, same⟩ | ⟨body, rest, closes, same⟩
    · rw [same]
      refine ⟨by simp [ended], fun held left => ?_⟩
      obtain rfl : ⟨atom.text ++ '\n' :: line, atom.closer⟩ = held := by
        simpa [left?, Token.content] using left
      exact ⟨sound.begun.append _, sound.closer⟩
    · have later := (scanned_scan markup rest).proper
      have goesOn := (scanned_scan markup rest).goesOn
      rw [same]
      dsimp only
      rw [ended_cons _ goesOn, left?_cons _ goesOn]
      refine ⟨forall_mem_append.mpr ⟨fun part here => ?_, later.1⟩, later.2⟩
      cases eq_atom_of_kept? here
      obtain ⟨occupied, last⟩ := solid_of_throughCloser? sound.closer closes
      refine ⟨sound.begun.append _, ?_⟩
      rw [getLast?_append_of_ne_nil _ (cons_ne_nil _ _), getLast?_cons_of_ne_nil occupied]
      exact last

theorem begun_atoms (markup : Bool) (proper : ∀ held ∈ atom, held.Proper)
    (lines : List Text) : ∀ part ∈ atoms markup atom lines, Begun part := by
  induction lines generalizing atom with
  | nil =>
    intro part member
    obtain ⟨held, known, rfl⟩ := mem_map.mp member
    exact (proper held (Option.mem_toList.mp known)).begun
  | cons line lines ih =>
    have sound := proper_scanLine markup proper line
    exact forall_mem_append.mpr ⟨fun part known => (sound.1 part known).begun, ih sound.2⟩

end Proper

theorem carries_resumed (markup : Bool) (atom : OpenAtom) (line : Text) :
    Carries (scanLine markup (some atom) line).1 (scanLine markup (some atom) line).2
      (atom.text ++ '\n' :: line) := by
  have whole : (scanLine markup (some atom) line).1.flatMap Token.content =
      atom.text ++ '\n' :: line := by
    rcases scanLine_some markup atom line with ⟨-, same⟩ | ⟨body, rest, closes, same⟩
    · rw [same]
      exact append_nil _
    · have back : written (scan (delimiters markup) rest).1 = rest := written_scan markup rest
      rw [same, flatMap_cons, ← written, back, throughCloser?_eq_some closes]
      simp [Token.content]
  rw [← whole]
  exact .of_flatMap Token.content (fun _ => rfl) (scanLine_ends markup (some atom) line)

section Written

variable {markup : Bool}

/-- The line itself, less the blanks before it, and less those behind it if it leaves no
atom open. -/
theorem carries_trimLeft (markup : Bool) (text : Text) :
    Carries (tokenize markup none text).1 (tokenize markup none text).2 (trimLeft text) := by
  have scanned := scanned_scan markup text
  have whole := Carries.of_flatMap Token.content (fun _ => rfl) scanned.ends
  rw [← written, written_scan] at whole
  exact whole.trimLeft scanned.proper.1 scanned.proper.2

theorem carries_trim (complete : (tokenize markup none text).2 = none) :
    Carries (tokenize markup none text).1 (tokenize markup none text).2 (trim text) := by
  have carries := carries_trimLeft markup text
  have compact := (scanned_scan markup text).proper.1
  rw [← tokenize.eq_1, complete] at compact
  rw [complete] at carries ⊢
  exact carries.trimRight compact

theorem carries_spellLine (text : Text) :
    Carries (tokenize false none text).1 (tokenize false none text).2 (spellLine none text).1 := by
  have scanned : Scanned false (tokenize false none text).1 (tokenize false none text).2 :=
    scanned_scan false text
  rw [spellLine_eq]
  generalize tokenize false none text = cut at scanned
  obtain ⟨tokens, still⟩ := cut
  dsimp only at scanned ⊢
  obtain ⟨compact, proper⟩ := scanned.proper
  have whole := Carries.of_flatMap spellToken (fun _ => rfl) scanned.ends
  have led : Carries tokens still (dropLead tokens (tokens.flatMap spellToken)) := by
    rw [dropLead.eq_def]
    split
    · exact whole.trimLeft compact proper
    · exact whole
  unfold spellTokens
  cases still with
  | none => exact led.trimRight compact
  | some closer => exact led

end Written

/-- Whether no line of a body that looks like a comment leaves an atom open, given the closer
of the atom that is open before. -/
def Sheltered (markup : Bool) : Option Text → List Text → Prop
  | _, [] => True
  | pending, line :: lines =>
    (pending = none → isCommentLine line = true → (tokenize markup none line).2 = none) ∧
      Sheltered markup (tokenize markup pending line).2 lines

instance decidableSheltered (markup : Bool) : (pending : Option Text) → (lines : List Text) →
    Decidable (Sheltered markup pending lines)
  | _, [] => .isTrue trivial
  | pending, line :: lines =>
    have := decidableSheltered markup (tokenize markup pending line).2 lines
    inferInstanceAs (Decidable (_ ∧ _))

/-- The closer of the atom that is open behind lines. -/
def pendingAfter (markup : Bool) (pending : Option Text) (lines : List Text) : Option Text :=
  lines.foldl (fun pending line => (tokenize markup pending line).2) pending

theorem scanLine_still (markup : Bool) (atom : Option OpenAtom) (line : Text) :
    (scanLine markup atom line).2 = (tokenize markup (atom.map OpenAtom.closer) line).2 := by
  cases atom <;> rfl

namespace Style

variable {style : Style}

theorem restyle_trimLeft (style : Style) (text : Text) :
    style.restyle none (trimLeft text) = style.restyle none text := by
  cases markup : style.markup with
  | false => rw [restyle_of_sql markup, restyle_of_sql markup, spellLine_trimLeft]
  | true =>
    rw [restyle_of_markup markup, restyle_of_markup markup, still_trimLeft, trim_trimLeft,
      trimLeft_trimLeft]

/-- Blanks behind a text that leaves no atom open do not count. -/
theorem restyle_trimRight (complete : (tokenize style.markup none text).2 = none) :
    style.restyle none (trimRight text) = style.restyle none text := by
  cases markup : style.markup with
  | false =>
    rw [markup] at complete
    rw [restyle_of_sql markup, restyle_of_sql markup, spellLine_trimRight isCloser_none complete]
  | true =>
    rw [markup] at complete
    rw [restyle_of_markup markup, restyle_of_markup markup, still_trimRight isCloser_none,
      complete, trim_trimRight]
    rfl

theorem carries_restyle (style : Style) (text : Text) :
    Carries (tokenize style.markup none text).1 (tokenize style.markup none text).2
      (style.restyle none text).1 := by
  cases markup : style.markup with
  | false =>
    rw [restyle_of_sql markup]
    exact carries_spellLine text
  | true =>
    rw [restyle_of_markup markup]
    dsimp only
    split
    next complete => exact carries_trim (Option.isNone_iff_eq_none.mp complete)
    next => exact carries_trimLeft true text

/-- A first line that leaves no blanks in an atom is laid out without the blanks around it. -/
theorem restyle_trim (style : Style)
    (flush : (tokenize style.markup none text).2.isSome = true → blankTail text = []) :
    style.restyle none (trim text) = style.restyle none text := by
  rw [← restyle_trimLeft style text]
  cases still : (tokenize style.markup none text).2 with
  | none =>
    exact restyle_trimRight (by rw [still_trimLeft, still])
  | some closer =>
    have same := trimRight_append_blankTail text
    rw [flush (by rw [still]; rfl), append_nil] at same
    have solid (c : Char) (last : c ∈ (trimLeft text).getLast?) : isBlank c = false :=
      last_trimRight text c (same.symm ▸ mem_getLast?_of_trimLeft last)
    rw [trim, trimRight_of_last solid]

/-- What a line of a body leaves open, if it is no comment or leaves nothing open. -/
theorem still_bodyLine (depth : Nat) {pending : Option Text}
    (sheltered : pending = none → isCommentLine text = true →
      (tokenize style.markup none text).2 = none) :
    (style.bodyLine depth pending text).2 = (tokenize style.markup pending text).2 := by
  cases pending with
  | some closer => exact still_restyle style _ text
  | none =>
    cases empty : allBlank text with
    | true =>
      rw [bodyLine_of_allBlank depth empty]
      exact (still_of_allBlank empty).symm
    | false =>
      cases comment : isCommentLine text with
      | true =>
        rw [bodyLine_of_comment depth empty comment]
        exact (sheltered rfl comment).symm
      | false =>
        rw [bodyLine_of_code depth empty comment, restyle_trimLeft]
        exact style.still_restyle none text

theorem bodyLines_concat {depth : Nat} {pending : Option Text} {texts : List Text}
    {last : Text} (sheltered : Sheltered style.markup pending (texts ++ [last])) :
    style.bodyLines depth pending (texts ++ [last]) = style.bodyLines depth pending texts ++
      [(style.bodyLine depth (pendingAfter style.markup pending texts) last).1] := by
  induction texts generalizing pending with
  | nil => rfl
  | cons text texts ih =>
    rw [cons_append, bodyLines, bodyLines, still_bodyLine depth sheltered.1, ih sheltered.2]
    rfl

/-- A line of a body shows its atoms, behind what is held of the atom open before it. -/
theorem carries_bodyLine (depth : Nat)
    (sheltered : atom = none → isCommentLine text = true →
      (tokenize style.markup none text).2 = none) :
    Carries (scanLine style.markup atom text).1 (scanLine style.markup atom text).2
      (held atom ++ '\n' :: (style.bodyLine depth (atom.map OpenAtom.closer) text).1) := by
  cases atom with
  | some atom =>
    rw [Option.map_some, bodyLine_of_pending]
    exact carries_resumed style.markup atom text
  | none =>
    rw [Option.map_none]
    cases empty : allBlank text with
    | true =>
      have complete : (tokenize style.markup none text).2 = none := still_of_allBlank empty
      have carries := (carries_trim complete).behind ['\n']
      rw [trim_eq_nil_iff.mpr empty] at carries
      rw [bodyLine_of_allBlank depth empty]
      exact carries
    | false =>
      cases comment : isCommentLine text with
      | true =>
        rw [bodyLine_of_comment depth empty comment]
        exact (carries_trim (sheltered rfl comment)).behind ('\n' :: style.indent (depth + 1))
      | false =>
        rw [bodyLine_of_code depth empty comment, restyle_trimLeft]
        exact (style.carries_restyle text).behind ('\n' :: style.indent _)

theorem inOrder_bodyLines (depth : Nat) {texts : List Text}
    (sheltered : Sheltered style.markup (atom.map OpenAtom.closer) texts) :
    InOrder (atoms style.markup atom texts)
      (held atom ++ feedLines (style.bodyLines depth (atom.map OpenAtom.closer) texts)) := by
  induction texts generalizing atom with
  | nil =>
    cases atom with
    | none => exact .nil _
    | some atom => exact .cons [] atom.text (.nil [])
  | cons text texts ih =>
    have outside (none_ : atom = none) := sheltered.1 (by rw [none_]; rfl)
    obtain ⟨front, ordered, whole⟩ := style.carries_bodyLine depth outside
    have still := style.still_bodyLine depth sheltered.1
    rw [← scanLine_still] at still
    have next := closer_left? style.markup atom text
    have later := sheltered.2
    rw [← scanLine_still, ← next] at later
    have behind := ih later
    rw [next] at behind
    have joined := ordered.append behind
    rw [← append_assoc, ← whole] at joined
    rw [atoms, bodyLines, still, feedLines_cons]
    simpa using joined

end Style

end Sql

/-- The text before the last terminator. -/
def Code.upToTerminator (text : Text) : Text :=
  ((cutLast? terminator text).map Prod.fst).getD []

namespace Segment

/-- What the first line of a segment has behind the property and before a terminator. -/
def firstSource (segment : Segment) : Text :=
  if segment.inline then upToTerminator segment.value
  else segment.value ++ blankTail segment.opening.text

/-- The other lines of a segment as they stand in the source, up to the terminator. -/
def laterSources (segment : Segment) : List Text :=
  if segment.inline then []
  else segment.body.map Line.text ++ segment.closing.toList.map fun line => upToTerminator line.text

/-- The template tags, substitutions and quoted texts of a segment. -/
def atoms (markup : Bool) (segment : Segment) : List Text :=
  Sql.atoms markup none (segment.firstSource :: segment.laterSources)

/-- Whether the layout of a segment leaves alone what stands in an atom that goes over a line's
end: no blanks stand behind a first line that leaves one open, no line that looks like a comment
leaves one open, and blanks before the terminator inside one are as far in as the segment is. -/
structure Sheltered (style : Sql.Style) (segment : Segment) : Prop where
  flush : (Sql.tokenize style.markup none segment.firstSource).2.isSome = true →
    blankTail segment.firstSource = []
  body : Sql.Sheltered style.markup (Sql.tokenize style.markup none segment.firstSource).2
    segment.laterSources
  closing : ∀ line ∈ segment.closing,
    (Sql.pendingAfter style.markup (Sql.tokenize style.markup none segment.firstSource).2
      (segment.body.map Line.text)).isSome = true →
    allBlank (upToTerminator line.text) = true →
      upToTerminator line.text <+: style.indent segment.depth

instance (style : Sql.Style) (segment : Segment) : Decidable (segment.Sheltered style) :=
  decidable_of_iff (_ ∧ _ ∧ _)
    ⟨fun all => ⟨all.1, all.2.1, all.2.2⟩, fun all => ⟨all.flush, all.body, all.closing⟩⟩

theorem begun_atoms (markup : Bool) (segment : Segment) :
    ∀ part ∈ segment.atoms markup, Begun part :=
  Sql.begun_atoms markup (by simp) _

/-- A first line without the blanks around it is the value of the segment. -/
theorem trim_firstSource {segment : Segment} (trimmed : Trimmed segment.value)
    (ended : segment.inline = true → endsSegment (trim segment.value) = true) :
    trim segment.firstSource =
      if segment.inline then stripTerminator segment.value else segment.value := by
  rw [firstSource]
  split
  next inline =>
    obtain ⟨before, tail, cut, -, -, same⟩ := cutLast?_of_endsSegment (ended inline)
    rw [upToTerminator, cut, stripTerminator, before?_eq_some_iff.mpr same, Option.getD_some,
      trim_trimLeft]
    rfl
  next =>
    rw [← trim_trimRight, trimRight_append_of_allBlank (allBlank_blankTail _), trim_trimRight,
      trimmed.trim_eq]

end Segment

namespace Sql.Style

variable {style : Style} {segment : Segment}

theorem closingText?_eq (text : Text) :
    closingText? text =
      if allBlank (upToTerminator text) then none else some (upToTerminator text) := by
  unfold closingText? upToTerminator
  cases cutLast? terminator text <;> rfl

theorem exists_headLine (style : Style) (segment : Segment) (text : Text) :
    ∃ lead, lead ≠ [] ∧ style.headLine segment text = lead ++ text := by
  unfold headLine
  dsimp only
  split
  next empty =>
    refine ⟨style.indent segment.depth ++ segment.property ++ [':'], by simp, ?_⟩
    rw [List.isEmpty_iff.mp empty, append_nil]
  next => exact ⟨style.indent segment.depth ++ segment.property ++ [':'] ++ [' '], by simp, rfl⟩

/-- Below its first line a segment is laid out as the lines of its source are, up to the
terminator. -/
theorem exists_behind (inline : segment.inline = false) (sheltered : segment.Sheltered style) :
    ∃ rest, feedLines (style.bodyLines segment.depth
        (tokenize style.markup none segment.firstSource).2
        (segment.body.map Line.text ++
          segment.closing.toList.filterMap fun line => closingText? line.text) ++
        segment.closing.toList.map fun _ => style.indent segment.depth ++ terminator) =
      feedLines (style.bodyLines segment.depth
        (tokenize style.markup none segment.firstSource).2 segment.laterSources) ++ rest := by
  have sources : segment.laterSources = segment.body.map Line.text ++
      segment.closing.toList.map fun line => upToTerminator line.text := by
    simp [Segment.laterSources, inline]
  have body := sheltered.body
  rw [sources] at body ⊢
  cases found : segment.closing with
  | none => exact ⟨[], by simp⟩
  | some line =>
    cases blank : allBlank (upToTerminator line.text) with
    | false =>
      exact ⟨feedLines [style.indent segment.depth ++ terminator],
        by simp [closingText?_eq, blank, feedLines_append]⟩
    | true =>
      -- The blanks before the terminator begin the line that the terminator is put on.
      obtain ⟨more, same⟩ : (style.bodyLine segment.depth (pendingAfter style.markup
          (tokenize style.markup none segment.firstSource).2 (segment.body.map Line.text))
          (upToTerminator line.text)).1 <+: style.indent segment.depth := by
        cases open_ : pendingAfter style.markup
            (tokenize style.markup none segment.firstSource).2 (segment.body.map Line.text) with
        | none =>
          rw [bodyLine_of_allBlank _ blank]
          exact nil_prefix
        | some closer => exact sheltered.closing line found (by rw [open_]; rfl) blank
      refine ⟨more ++ terminator, ?_⟩
      rw [found, Option.toList_some, map_singleton] at body
      rw [Option.toList_some, map_singleton, map_singleton, bodyLines_concat body,
        feedLines_append, feedLines_append, ← same]
      simp [closingText?_eq, blank]

theorem inOrder_segmentLines (trimmed : Trimmed segment.value)
    (ended : segment.inline = true → endsSegment (trim segment.value) = true)
    (sheltered : segment.Sheltered style) :
    InOrder (segment.atoms style.markup) (joinLines (style.segmentLines segment)) := by
  -- The first line shows its atoms, and the body goes on with the one it leaves open.
  obtain ⟨front, ordered, whole⟩ := style.carries_restyle segment.firstSource
  have pending := closer_left? style.markup none segment.firstSource
  have body := sheltered.body
  rw [OpenAtom.scanLine_none] at pending
  rw [← pending] at body
  have behind := style.inOrder_bodyLines segment.depth body
  rw [pending] at behind
  have joined := ordered.append behind
  rw [← append_assoc, ← whole] at joined
  have first := style.restyle_trim sheltered.flush
  rw [Segment.trim_firstSource trimmed ended] at first
  rw [Segment.atoms, atoms, OpenAtom.scanLine_none, segmentLines]
  cases inline : segment.inline with
  | true =>
    rw [inline, if_pos rfl] at first
    obtain ⟨lead, -, headed⟩ :=
      style.exists_headLine segment (style.restyle none segment.firstSource).1
    have shown := (joined.behind lead).before ([' '] ++ terminator)
    rw [if_pos rfl, first]
    dsimp only
    rw [headed, joinLines_cons, feedLines_nil, append_nil]
    simpa [Segment.laterSources, inline, bodyLines] using shown
  | false =>
    rw [inline, if_neg Bool.false_ne_true] at first
    obtain ⟨lead, -, headed⟩ :=
      style.exists_headLine segment (style.restyle none segment.firstSource).1
    obtain ⟨rest, below⟩ := exists_behind inline sheltered
    have shown := (joined.behind lead).before rest
    rw [if_neg Bool.false_ne_true, first]
    dsimp only
    rw [headed, cons_append, joinLines_cons, still_restyle, below]
    simpa using shown

end Sql.Style

end LookML
