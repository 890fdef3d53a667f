import Stencil.Proofs.Token.Bytes
import Stencil.Proofs.Token.Crossing

namespace Stencil

open Text Cursor Lexer

-- A piece of a source and what it is written with: text, a code block or a placeholder. Of code the
-- tokens in it are known, of a block also whether it is closed.
inductive Part where
  | text (written : List Char)
  | block (written : List Char) (tokens : List (Mode × Token)) (closed : Bool)
  | placeholder (written : List Char) (tokens : List (Mode × Token))

namespace Part

def written : Part → List Char
  | .text cs => cs
  | .block cs _ _ => cs
  | .placeholder cs _ => cs

-- The source that is made of the parts.
def source (parts : List Part) : List Char := parts.flatMap written

-- Whether a lone code block comes first: one that is closed, with nothing but blanks between the
-- beginning of its line and it, and between it and the next newline or the end of the source.
def startsAlone (before : List Char) : List Part → Bool
  | .block _ _ closed :: parts =>
    closed && (lastLine before).all isBlank && ((source parts).takeWhile (· ≠ '\n')).all isBlank
  | _ => false

-- What is left of a text between two parts where lone code blocks take their line with them.
def remains (follows precedes : Bool) (text : List Char) : List Char :=
  let text := if follows then dropBlankStart text else text
  if precedes then dropBlankEnd text else text

-- What reading the parts comes to, behind some beginning of the source that ends in a lone code
-- block or not.
def events (trim : Bool) : List Char → Bool → List Part → List Event
  | _, _, [] => []
  | before, alone, .text cs :: parts =>
    let follows := trim && alone
    let precedes := trim && startsAlone (before ++ cs) parts
    Event.ofText (Position.behind (before ++ if follows then blankStart cs else []))
        (remains follows precedes (unescape cs)) ++
      events trim (before ++ cs) false parts
  | before, _, .block cs tokens closed :: parts =>
    .opening (Position.behind before) :: (Event.ofTokens tokens ++
      (if closed then [.closing (Position.behind (before ++ cs))] else []) ++
      events trim (before ++ cs) (startsAlone before (.block cs tokens closed :: parts)) parts)
  | before, _, .placeholder cs tokens :: parts =>
    .token .text ⟨.placeholder, .none, Position.behind before⟩ :: (Event.ofTokens tokens ++
      events trim (before ++ cs) false parts)

end Part

namespace Lexer

-- The lexer that reads on behind a part of a source. Where it is a lone code block, the rest of the
-- line has gone with it.
def entering (trim alone : Bool) (before cs : List Char) : Lexer :=
  ⟨if trim && alone then skipBlankLine cs (Mark.start.past before)
    else ⟨cs, Mark.start.past before⟩, .text, trim, false⟩

section

variable {trim alone : Bool} {before cs : List Char}

theorem behindText_entering :
    behindText (entering trim alone before cs).cursor =
      ⟨behindSegment cs, Mark.start.past (before ++ segment cs)⟩ := by
  unfold entering
  simp only
  split
  · obtain ⟨hstart, hrest⟩ := segment_dropBlankStart cs
    rw [skipBlankLine_eq, behindText, behindSegment_dropBlankStart, hrest, ← Mark.past_append,
      ← hstart, blankStart_append_drop, ← Mark.past_append]
  · rw [behindText, ← Mark.past_append]

theorem pos_entering :
    (entering trim alone before cs).pos =
      Position.behind (before ++ if trim && alone then blankStart (segment cs) else []) := by
  rw [← Mark.pos_past_start, Mark.past_append]
  unfold entering
  split
  · rw [skipBlankLine_eq, (segment_dropBlankStart cs).1]
    rfl
  · rfl

theorem dropsLine_of_rest {r : List Char} (h : behindSegment cs = '<' :: '%' :: r) :
    (entering trim alone before cs).dropsLine =
      (trim && ((lastLine (before ++ segment cs)).all isBlank &&
        match codeRest .code r with
        | some r => (r.takeWhile (· ≠ '\n')).all isBlank
        | none => false)) := by
  rw [dropsLine, behindText_entering, h, aloneOnLine_eq, Mark.blankSoFar_past_start]
  cases codeRest .code r <;> rfl

theorem dropsLine_of_ne (h : ∀ r, behindSegment cs ≠ '<' :: '%' :: r) :
    (entering trim alone before cs).dropsLine = false := by
  rw [dropsLine, behindText_entering]
  rcases behindSegment_cases cs with hrest | ⟨r, hrest⟩ | ⟨r, hrest⟩
  · simp [hrest]
  · exact absurd hrest (h r)
  · simp [hrest]

theorem blank_of_dropsLine (h : (entering trim alone before cs).dropsLine = true) :
    ∀ c ∈ lastLine (before ++ segment cs), isBlank c = true := by
  rcases behindSegment_cases cs with hrest | ⟨r, hrest⟩ | ⟨r, hrest⟩
  · rw [dropsLine_of_ne (by simp [hrest])] at h
    cases h
  · rw [dropsLine_of_rest hrest, Bool.and_eq_true, Bool.and_eq_true] at h
    exact List.all_eq_true.mp h.2.1
  · rw [dropsLine_of_ne (by simp [hrest])] at h
    cases h

-- The text that is given out is what remains of it.
theorem shownText_entering {precedes : Bool}
    (h : (entering trim alone before cs).dropsLine = (trim && precedes)) :
    (entering trim alone before cs).shownText =
      Part.remains (trim && alone) (trim && precedes) (unescape (segment cs)) := by
  have hrest : segment (entering trim alone before cs).cursor.rest =
      if trim && alone then dropBlankStart (segment cs) else segment cs := by
    unfold entering
    simp only
    split
    · rw [skipBlankLine_eq, (segment_dropBlankStart cs).2]
    · rfl
  have hmeaning : unescape (segment (entering trim alone before cs).cursor.rest) =
      if trim && alone then dropBlankStart (unescape (segment cs)) else unescape (segment cs) := by
    rw [hrest]
    split
    · rw [unescape_dropBlankStart]
    · rfl
  have hsuffix : segment (entering trim alone before cs).cursor.rest <:+ segment cs := by
    rw [hrest]
    split
    · exact ⟨_, blankStart_append_drop _⟩
    · exact List.suffix_rfl
  rw [shownText, Part.remains, ← hmeaning, h]
  split
  · rename_i hdrops
    obtain ⟨front, hfront⟩ := hsuffix
    have hblank : ∀ c ∈ lastLine (segment (entering trim alone before cs).cursor.rest),
        isBlank c = true := by
      intro c hc
      apply blank_of_dropsLine (h.trans hdrops)
      rw [← hfront, ← List.append_assoc]
      exact (lastLine_suffix _ _).subset hc
    rw [dropBlankEnd_of_blank]
    rw [(unescape_fullLines hblank).2]
    exact hblank
  · rfl

theorem reads_entering_opening {r : List Char} (h : behindSegment cs = '<' :: '%' :: r)
    {events : List Event} {ending : Ending}
    (hreads : Reads ⟨⟨r, Mark.start.past (before ++ segment cs ++ ['<', '%'])⟩, .code, trim,
      (entering trim alone before cs).dropsLine⟩ events ending) :
    Reads (entering trim alone before cs)
      (Event.ofText (entering trim alone before cs).pos (entering trim alone before cs).shownText ++
        .opening (Position.behind (before ++ segment cs)) :: events) ending := by
  have hplace := @behindText_entering trim alone before cs
  have hopened : (behindText (entering trim alone before cs).cursor).skip 2 =
      ⟨r, Mark.start.past (before ++ segment cs ++ ['<', '%'])⟩ := by
    rw [hplace, Cursor.skip, h, ← Mark.past_append]
    rfl
  rw [← Mark.pos_past_start]
  have hevents :=
    @reads_opening (entering trim alone before cs) r rfl (by rw [hplace, h]) events ending
  rw [hopened, hplace] at hevents
  exact hevents hreads

theorem reads_entering_placeholder {r : List Char} (h : behindSegment cs = '$' :: '\x7b' :: r)
    {events : List Event} {ending : Ending}
    (hreads : Reads ⟨⟨r, Mark.start.past (before ++ segment cs ++ ['$', '\x7b'])⟩, .placeholder 0,
      trim, false⟩ events ending) :
    Reads (entering trim alone before cs)
      (Event.ofText (entering trim alone before cs).pos (entering trim alone before cs).shownText ++
        .token .text ⟨.placeholder, .none, Position.behind (before ++ segment cs)⟩ :: events)
      ending := by
  have hplace := @behindText_entering trim alone before cs
  have hopened : (behindText (entering trim alone before cs).cursor).skip 2 =
      ⟨r, Mark.start.past (before ++ segment cs ++ ['$', '\x7b'])⟩ := by
    rw [hplace, Cursor.skip, h, ← Mark.past_append]
    rfl
  rw [← Mark.pos_past_start]
  have hevents :=
    @reads_placeholder (entering trim alone before cs) r rfl (by rw [hplace, h]) events ending
  rw [hopened, hplace, dropsLine_of_ne (by simp [h])] at hevents
  exact hevents hreads

theorem reads_entering_over (h : behindSegment cs = []) :
    Reads (entering trim alone before cs)
      (Event.ofText (entering trim alone before cs).pos (entering trim alone before cs).shownText)
      (.ended (Position.behind (before ++ segment cs))) := by
  have hplace := @behindText_entering trim alone before cs
  have hevents := @reads_over (entering trim alone before cs) rfl (by rw [hplace, h])
  rw [hplace] at hevents
  rw [← Mark.pos_past_start]
  exact hevents

end

end Lexer

-- The parts of a source behind some beginning, and how reading it ends: for both ways to read it
-- what it comes to is the same but for text, and text is what is said of it if nothing is wrong.
structure Part.Splits (before : List Char) (alone : Bool) (cs : List Char) (parts : List Part)
    (ending : Ending) : Prop where
  source : Part.source parts = cs
  reads : ∀ trim, ∃ events, Reads (entering trim alone before cs) events ending ∧
    events.filter (!·.isText) = (Part.events false before alone parts).filter (!·.isText) ∧
    ∀ pos, ending = .ended pos → events = Part.events trim before alone parts

namespace Part.Splits

variable {before cs : List Char} {alone : Bool}

-- The events of the text in front, where what is dropped of it is known.
theorem ofText_eq {trim : Bool} {parts : List Part}
    (h : (entering trim alone before cs).dropsLine =
      (trim && startsAlone (before ++ segment cs) parts)) :
    Event.ofText (entering trim alone before cs).pos (entering trim alone before cs).shownText ++
        events trim (before ++ segment cs) false parts =
      events trim before alone (.text (segment cs) :: parts) := by
  rw [shownText_entering h, pos_entering]
  rfl

theorem ended (h : behindSegment cs = []) :
    Splits before alone cs [.text (segment cs)]
      (.ended (Position.behind (before ++ segment cs))) where
  source := by
    have hsplit := segment_append_behind cs
    rw [h, List.append_nil] at hsplit
    simp [Part.source, written, hsplit]
  reads trim := by
    have hdrops : (entering trim alone before cs).dropsLine =
        (trim && startsAlone (before ++ segment cs) []) := by
      simp [dropsLine_of_ne (show ∀ r, behindSegment cs ≠ _ by simp [h]), startsAlone]
    have htext := ofText_eq hdrops
    rw [events, List.append_nil] at htext
    exact ⟨_, reads_entering_over h, by simp [events], fun _ _ => htext⟩

theorem block_stops {r : List Char} (h : behindSegment cs = '<' :: '%' :: r)
    {tokens : List (Mode × Token)} {ending : Ending}
    (hcrosses : Crosses .code ⟨r, Mark.start.past (before ++ segment cs ++ ['<', '%'])⟩ tokens
      (.stops ending)) :
    Splits before alone cs [.text (segment cs), .block ('<' :: '%' :: r) tokens false] ending where
  source := by
    have hsplit := segment_append_behind cs
    rw [h] at hsplit
    simp [Part.source, written, hsplit]
  reads trim := by
    have hcode := hcrosses.reads_stop (by simp) trim (entering trim alone before cs).dropsLine
    refine ⟨_, reads_entering_opening h hcode, by simp [events], ?_⟩
    rintro pos rfl
    have hdrops : (entering trim alone before cs).dropsLine = (trim && startsAlone
        (before ++ segment cs) [.block ('<' :: '%' :: r) tokens false]) := by
      rw [dropsLine_of_rest h, hcrosses.lookahead.2 pos rfl]
      simp [startsAlone]
    rw [← ofText_eq hdrops]
    simp [events]

theorem block {r w : List Char} (h : behindSegment cs = '<' :: '%' :: (w ++ r))
    {tokens : List (Mode × Token)} {parts : List Part} {ending : Ending}
    (hcrosses : Crosses .code ⟨w ++ r, Mark.start.past (before ++ segment cs ++ ['<', '%'])⟩ tokens
      (.behind ⟨r, Mark.start.past (before ++ segment cs ++ '<' :: '%' :: w)⟩))
    (hrest : Splits (before ++ segment cs ++ '<' :: '%' :: w)
      (startsAlone (before ++ segment cs) (.block ('<' :: '%' :: w) tokens true :: parts)) r parts
      ending) :
    Splits before alone cs (.text (segment cs) :: .block ('<' :: '%' :: w) tokens true :: parts)
      ending where
  source := by
    have hsplit := segment_append_behind cs
    rw [h] at hsplit
    conv_rhs => rw [← hsplit]
    simp [Part.source, written, ← hrest.source]
  reads trim := by
    have hdrops : (entering trim alone before cs).dropsLine = (trim && startsAlone
        (before ++ segment cs) (.block ('<' :: '%' :: w) tokens true :: parts)) := by
      rw [dropsLine_of_rest h, hcrosses.lookahead.1 _ rfl, startsAlone, hrest.source]
      simp
    obtain ⟨evs, hevs, hsame, hover⟩ := hrest.reads trim
    rw [entering, ← hdrops] at hevs
    have hcode := hcrosses.reads_behind (by simp) (.inl rfl) hevs
    refine ⟨_, reads_entering_opening h hcode, ?_, fun pos hpos => ?_⟩
    · simp [events, hsame, Cursor.pos, Mark.pos_past_start]
    · rw [← ofText_eq hdrops, hover pos hpos]
      simp [events, Cursor.pos, Mark.pos_past_start]

theorem placeholder_stops {r : List Char} (h : behindSegment cs = '$' :: '\x7b' :: r)
    {tokens : List (Mode × Token)} {ending : Ending}
    (hcrosses : Crosses (.placeholder 0)
      ⟨r, Mark.start.past (before ++ segment cs ++ ['$', '\x7b'])⟩ tokens (.stops ending)) :
    Splits before alone cs [.text (segment cs), .placeholder ('$' :: '\x7b' :: r) tokens]
      ending where
  source := by
    have hsplit := segment_append_behind cs
    rw [h] at hsplit
    simp [Part.source, written, hsplit]
  reads trim := by
    have hcode := hcrosses.reads_stop (by simp) trim false
    refine ⟨_, reads_entering_placeholder h hcode, by simp [events], ?_⟩
    rintro pos rfl
    have hdrops : (entering trim alone before cs).dropsLine = (trim && startsAlone
        (before ++ segment cs) [.placeholder ('$' :: '\x7b' :: r) tokens]) := by
      simp [dropsLine_of_ne (show ∀ r, behindSegment cs ≠ _ by simp [h]), startsAlone]
    rw [← ofText_eq hdrops]
    simp [events]

theorem placeholder {r w : List Char} (h : behindSegment cs = '$' :: '\x7b' :: (w ++ r))
    {tokens : List (Mode × Token)} {parts : List Part} {ending : Ending}
    (hcrosses : Crosses (.placeholder 0)
      ⟨w ++ r, Mark.start.past (before ++ segment cs ++ ['$', '\x7b'])⟩ tokens
      (.behind ⟨r, Mark.start.past (before ++ segment cs ++ '$' :: '\x7b' :: w)⟩))
    (hrest : Splits (before ++ segment cs ++ '$' :: '\x7b' :: w) false r parts ending) :
    Splits before alone cs (.text (segment cs) :: .placeholder ('$' :: '\x7b' :: w) tokens :: parts)
      ending where
  source := by
    have hsplit := segment_append_behind cs
    rw [h] at hsplit
    conv_rhs => rw [← hsplit]
    simp [Part.source, written, ← hrest.source]
  reads trim := by
    have hdrops : (entering trim alone before cs).dropsLine = (trim && startsAlone
        (before ++ segment cs) (.placeholder ('$' :: '\x7b' :: w) tokens :: parts)) := by
      simp [dropsLine_of_ne (show ∀ r, behindSegment cs ≠ _ by simp [h]), startsAlone]
    obtain ⟨evs, hevs, hsame, hover⟩ := hrest.reads trim
    rw [entering, Bool.and_false] at hevs
    have hcode := hcrosses.reads_behind (by simp) (.inr rfl) hevs
    refine ⟨_, reads_entering_placeholder h hcode, ?_, fun pos hpos => ?_⟩
    · simp [events, hsame]
    · rw [← ofText_eq hdrops, hover pos hpos]
      simp [events]

end Part.Splits

-- Every source has parts: behind a part that is closed there is less to read.
theorem Part.splits (before : List Char) (alone : Bool) (cs : List Char) :
    ∃ parts ending, Splits before alone cs parts ending := by
  induction hlength : cs.length using Nat.strong_induction_on generalizing before alone cs with
  | _ n ih =>
      have hsplit := congrArg List.length (segment_append_behind cs)
      rcases behindSegment_cases cs with h | ⟨r, h⟩ | ⟨r, h⟩
      · exact ⟨_, _, .ended h⟩
      · obtain ⟨tokens, outcome, hcrosses⟩ :=
          crosses_total .code ⟨r, Mark.start.past (before ++ segment cs ++ ['<', '%'])⟩
        cases outcome with
        | stops ending => exact ⟨_, ending, .block_stops h hcrosses⟩
        | behind s =>
            obtain ⟨w, rest, rfl, rfl⟩ := hcrosses.split
            rw [List.append_assoc _ _ w] at hcrosses
            have hshorter : rest.length < n := by
              simp only [h, List.length_append, List.length_cons] at hsplit
              omega
            obtain ⟨parts, ending, hrest⟩ := ih rest.length hshorter
              (before ++ segment cs ++ '<' :: '%' :: w)
              ((lastLine (before ++ segment cs)).all isBlank &&
                (rest.takeWhile (· ≠ '\n')).all isBlank) rest rfl
            have halone : startsAlone (before ++ segment cs)
                (.block ('<' :: '%' :: w) tokens true :: parts) =
                  ((lastLine (before ++ segment cs)).all isBlank &&
                    (rest.takeWhile (· ≠ '\n')).all isBlank) := by
              rw [startsAlone, hrest.source, Bool.true_and]
            rw [← halone] at hrest
            exact ⟨_, ending, .block h hcrosses hrest⟩
      · obtain ⟨tokens, outcome, hcrosses⟩ := crosses_total (.placeholder 0)
          ⟨r, Mark.start.past (before ++ segment cs ++ ['$', '\x7b'])⟩
        cases outcome with
        | stops ending => exact ⟨_, ending, .placeholder_stops h hcrosses⟩
        | behind s =>
            obtain ⟨w, rest, rfl, rfl⟩ := hcrosses.split
            rw [List.append_assoc _ _ w] at hcrosses
            have hshorter : rest.length < n := by
              simp only [h, List.length_append, List.length_cons] at hsplit
              omega
            obtain ⟨parts, ending, hrest⟩ := ih rest.length hshorter
              (before ++ segment cs ++ '$' :: '\x7b' :: w) false rest rfl
            exact ⟨_, ending, .placeholder h hcrosses hrest⟩

-- A source has the same parts whether or not lines that hold a lone code block are dropped. What is
-- come to in them, call after call, is the same but for text, up to the same end or the same first
-- error. And if there is none, each text is what it means, without the blanks through the first
-- newline behind a lone code block and those after the last newline in front of one.
theorem Lexer.trim_drops_blank_remains (source : String) :
    ∃ parts ending, Part.source parts = source.toList ∧
      ∀ trim, ∃ events, Reads (start source trim) events ending ∧
        (∀ n t, (events.filterMap Event.token?)[n]? = some t →
          ((start source trim).after n).next.1 = .ok t) ∧
        ((start source trim).after (events.filterMap Event.token?).length).next.1 = ending.answer ∧
        events.filter (!·.isText) = (Part.events false [] false parts).filter (!·.isText) ∧
        ∀ pos, ending = .ended pos → events = Part.events trim [] false parts := by
  obtain ⟨parts, ending, hsource, hreads⟩ := Part.splits [] false source.toList
  refine ⟨parts, ending, hsource, fun trim => ?_⟩
  obtain ⟨events, hevents, hsame, hover⟩ := hreads trim
  have hstart : entering trim false [] source.toList = start source trim := by
    rw [entering, Bool.and_false]
    rfl
  rw [hstart] at hevents
  exact ⟨events, hevents, hevents.calls.1, hevents.calls.2, hsame, hover⟩

end Stencil
