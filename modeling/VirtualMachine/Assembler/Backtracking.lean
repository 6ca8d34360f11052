import VirtualMachine.Assembler.Scanning

namespace VirtualMachine

namespace Lexer

/-- A call of the lexer; the marks are numbered as they are taken. -/
inductive Call
  | next | peek | mark | restore (index : Nat)
  deriving DecidableEq, Repr

/-- The call returns a token. -/
def Call.asks : Call → Bool
  | .next => true
  | .peek => true
  | _ => false

/-- A lexer and the marks that have been taken from it. -/
structure Session where
  lexer : Lexer
  marks : List Nat := []

/-- Nothing is restored from a mark that has not been taken. -/
def Session.perform (session : Session) : Call → Except Exception (Option Token × Session)
  | .next => session.lexer.next.map (fun read => (some read.1, { session with lexer := read.2 }))
  | .peek => session.lexer.peek.map (fun read => (some read.1, { session with lexer := read.2 }))
  | .mark => .ok (none, { session with marks := session.marks ++ [session.lexer.mark] })
  | .restore index =>
    match session.marks[index]? with
    | none => .ok (none, session)
    | some mark => .ok (none, { session with lexer := session.lexer.restore mark })

/-- What the calls return, if none of them raises an error. -/
def Session.run : Session → List Call → Except Exception (List (Option Token))
  | _, [] => .ok []
  | session, call :: calls =>
    match session.perform call with
    | .error e => .error e
    | .ok (response, session) => (session.run calls).map (response :: ·)

/-- The line on which the token behind this many others starts. -/
def placeLine (source : Text) (place : Nat) : Nat := ((tokenStart source place).map (lineAt source)).getD 0

/-- The token behind this many others, with the line that is one more than the
newlines in front of it. -/
def tokenAt (source : Text) (place : Nat) : Token :=
  (((tokensOf source)[place]?.map Token.spelling).getD (.End, [])).at (placeLine source place)

/-- The place behind the token that is read; the end of the source is read
again and again. -/
def placeAfter (source : Text) (place : Nat) : Nat := if place < (tokensOf source).length then place + 1 else place

/-- A place among the tokens, and the marks that have been taken. -/
structure Reader where
  place : Nat := 0
  marks : List Nat := []

/-- What the calls are for: a peek changes nothing, and to restore a mark is to
go back to where it was taken. -/
def Reader.perform (source : Text) (reader : Reader) : Call → Option Token × Reader
  | .next => (some (tokenAt source reader.place), { reader with place := placeAfter source reader.place })
  | .peek => (some (tokenAt source reader.place), reader)
  | .mark => (none, { reader with marks := reader.marks ++ [reader.place] })
  | .restore index =>
    match reader.marks[index]? with
    | none => (none, reader)
    | some place => (none, { reader with place := place })

def Reader.run (source : Text) : Reader → List Call → List (Option Token)
  | _, [] => []
  | reader, call :: calls => (reader.perform source call).1 :: (reader.perform source call).2.run source calls

/-- How many lines a call goes back over, or forward if it is negative. -/
def Reader.goesBack (source : Text) (reader : Reader) : Call → Int
  | .restore index =>
    match reader.marks[index]? with
    | none => 0
    | some place => placeLine source reader.place - placeLine source place
  | _ => 0

/-- Whenever a token is asked for, the restores so far have gone back over as
many lines as they have gone forward; they have gone back over `gone` more in
front of the calls. -/
def LinesMadeUp (source : Text) : Reader → Int → List Call → Prop
  | _, _, [] => True
  | reader, gone, call :: calls =>
    (call.asks = true → gone = 0) ∧
      LinesMadeUp source (reader.perform source call).2 (gone + reader.goesBack source call) calls

instance decidableLinesMadeUp (source : Text) :
    ∀ reader gone calls, Decidable (LinesMadeUp source reader gone calls)
  | _, _, [] => inferInstanceAs (Decidable True)
  | reader, gone, call :: calls =>
    have := decidableLinesMadeUp source (reader.perform source call).2 (gone + reader.goesBack source call) calls
    inferInstanceAs (Decidable (_ ∧ _))

/-- The place among the tokens that a position of the source stands for. -/
structure Stands (source : Text) (position place : Nat) : Prop where
  inside : place ≤ (tokensOf source).length
  reads : Reads (readable source) (source.drop position) (((tokensOf source).drop place).map Token.spelling)

/-- The lexer stands where the reader does, and its line is too high by what the
restores have gone back over. -/
structure Follows (source : Text) (session : Session) (reader : Reader) (gone : Int) : Prop where
  sound : session.lexer.Sound
  reads : session.lexer.source = source
  stands : Stands source session.lexer.position reader.place
  line : (session.lexer.line : Int) = placeLine source reader.place + gone
  marks : ∃ taken : List (Nat × Nat), session.marks = taken.map Prod.fst ∧ reader.marks = taken.map Prod.snd ∧
    ∀ mark ∈ taken, Stands source mark.1 mark.2

variable {source : Text} {session after : Session} {reader : Reader} {gone : Int} {lexer cursor : Lexer}
  {token : Token} {position place : Nat}

theorem placeLine_eq (inside : place ≤ (tokensOf source).length) :
    placeLine source place = 1 + ((tokensOf source).take place).countP Source.isNewline := by
  obtain ⟨start, found, line⟩ := tokenStart_line (at_tokensOf source) inside
  unfold placeLine
  rw [found]
  exact line

/-- What is read at a place, on whatever line the lexer believes to be. -/
theorem Stands.readToken (stands : Stands source lexer.position place) (same : lexer.source = source)
    (read : lexer.readToken = .ok (token, cursor)) :
    token = (tokenAt source place).spelling.at lexer.line ∧ Stands source cursor.position (placeAfter source place) ∧
      cursor.line + placeLine source place = lexer.line + placeLine source (placeAfter source place) := by
  obtain ⟨inside, reads⟩ := stands
  obtain ⟨length, scanned, moved⟩ := readToken_eq_ok read
  obtain ⟨tokenLine, line⟩ := readToken_line read
  rw [same] at scanned
  rw [moved, line]
  have known : token = token.spelling.at lexer.line := by
    rw [← tokenLine]
    rfl
  unfold placeAfter
  by_cases within : place < (tokensOf source).length
  · rw [if_pos within, placeLine_eq inside, placeLine_eq within]
    rw [List.drop_eq_getElem_cons within, List.map_cons] at reads
    obtain ⟨length', scanned', reads⟩ := reads.cons
    obtain ⟨spelling, rfl⟩ := Prod.mk.inj (Except.ok.inj (scanned.symm.trans scanned'))
    rw [List.drop_drop] at reads
    have found : (tokenAt source place).spelling = token.spelling := by
      unfold tokenAt
      rw [List.getElem?_eq_getElem within, spelling]
      rfl
    have sameType : Source.isNewline token = Source.isNewline (tokensOf source)[place] := by
      have types : token.type = (tokensOf source)[place].type := congrArg Prod.fst spelling
      unfold Source.isNewline
      rw [types]
    rw [found]
    refine ⟨known, ⟨within, reads⟩, ?_⟩
    rw [List.take_succ_eq_append_getElem within, List.countP_append, List.countP_singleton, List.countP_singleton,
      sameType]
    omega
  · rw [if_neg within]
    have last : place = (tokensOf source).length := by omega
    rw [last, List.drop_length, List.map_nil] at reads
    obtain ⟨spelling, ends⟩ := reads.nil.again scanned
    rw [List.drop_drop] at ends
    have found : (tokenAt source place).spelling = token.spelling := by
      unfold tokenAt
      rw [spelling, List.getElem?_eq_none (by omega)]
      rfl
    have visible : Source.isNewline token = false := by
      have ended : token.type = .End := congrArg Prod.fst spelling
      unfold Source.isNewline
      rw [ended]
      rfl
    rw [found]
    refine ⟨known, ⟨inside, ?_⟩, ?_⟩
    · rw [last, List.drop_length, List.map_nil]
      exact ⟨_, .here _, ends⟩
    · rw [List.countP_singleton, visible]
      rfl

/-- A token that is asked for is the right one exactly when the line of the
lexer is that of its place. -/
theorem Follows.answer_iff (follows : Follows source session reader gone)
    (known : token = (tokenAt source reader.place).spelling.at session.lexer.line) :
    some token = some (tokenAt source reader.place) ↔ gone = 0 := by
  have line := follows.line
  constructor
  · intro same
    have lines : token.line = placeLine source reader.place := congrArg Token.line (Option.some.inj same)
    rw [known] at lines
    have lines : session.lexer.line = placeLine source reader.place := lines
    omega
  · intro made
    have lines : session.lexer.line = placeLine source reader.place := by omega
    rw [known, lines]
    rfl

theorem Follows.next {response : Option Token} (follows : Follows source session reader gone)
    (ran : session.perform .next = .ok (response, after)) :
    Follows source after (reader.perform source .next).2 gone ∧
      (response = (reader.perform source .next).1 ↔ gone = 0) := by
  unfold Session.perform at ran
  cases taken : session.lexer.next with
  | error e =>
    rw [taken] at ran
    cases ran
  | ok found =>
    rw [taken] at ran
    cases ran
    obtain ⟨cursor, read, moved⟩ := next_ok follows.sound taken
    have start : Stands source session.lexer.cursor.position reader.place := follows.stands
    obtain ⟨known, stands, line⟩ := start.readToken follows.reads read
    have before := follows.line
    refine ⟨⟨?_, ?_, ?_, ?_, follows.marks⟩, follows.answer_iff known⟩
    · rw [moved]
      intro peeked
      cases peeked
    · rw [moved]
      exact follows.reads
    · rw [moved]
      exact stands
    · have line : cursor.line + placeLine source reader.place =
          session.lexer.line + placeLine source (placeAfter source reader.place) := line
      rw [moved]
      change (cursor.line : Int) = placeLine source (placeAfter source reader.place) + gone
      omega

theorem Follows.peek {response : Option Token} (follows : Follows source session reader gone)
    (ran : session.perform .peek = .ok (response, after)) :
    Follows source after reader gone ∧ (response = (reader.perform source .peek).1 ↔ gone = 0) := by
  unfold Session.perform at ran
  cases peeked : session.lexer.peek with
  | error e =>
    rw [peeked] at ran
    cases ran
  | ok found =>
    rw [peeked] at ran
    cases ran
    obtain ⟨cursor, read, sound, same⟩ := peek_ok follows.sound peeked
    have start : Stands source session.lexer.cursor.position reader.place := follows.stands
    obtain ⟨known, _, _⟩ := start.readToken follows.reads read
    obtain ⟨sameSource, samePosition, sameLine⟩ : found.2.source = session.lexer.source ∧
        found.2.position = session.lexer.position ∧ found.2.line = session.lexer.line := by
      have cursors : found.2.cursor = session.lexer.cursor := same
      unfold Lexer.cursor at cursors
      injection cursors with source position line
      exact ⟨source, position, line⟩
    refine ⟨⟨sound, sameSource.trans follows.reads, ?_, ?_, follows.marks⟩, follows.answer_iff known⟩
    · change Stands source found.2.position reader.place
      rw [samePosition]
      exact follows.stands
    · change (found.2.line : Int) = _
      rw [sameLine]
      exact follows.line

theorem Follows.mark (follows : Follows source session reader gone) :
    Follows source { session with marks := session.marks ++ [session.lexer.mark] }
      { reader with marks := reader.marks ++ [reader.place] } gone := by
  obtain ⟨sound, reads, stands, line, taken, marks, marks', each⟩ := follows
  refine ⟨sound, reads, stands, line, taken ++ [(session.lexer.mark, reader.place)], ?_, ?_, ?_⟩
  · rw [List.map_append, marks]
    rfl
  · rw [List.map_append, marks']
    rfl
  · intro mark member
    rcases List.mem_append.mp member with earlier | new
    · exact each mark earlier
    · rw [List.mem_singleton.mp new]
      exact stands

/-- A restore leaves the line as it is, and so counts the lines it goes over. -/
theorem Follows.restore {index : Nat} {response : Option Token} (follows : Follows source session reader gone)
    (ran : session.perform (.restore index) = .ok (response, after)) :
    response = none ∧ (reader.perform source (.restore index)).1 = none ∧
      Follows source after (reader.perform source (.restore index)).2
        (gone + reader.goesBack source (.restore index)) := by
  obtain ⟨taken, marks, marks', each⟩ := follows.marks
  unfold Session.perform at ran
  unfold Reader.perform Reader.goesBack
  dsimp only at ran ⊢
  rw [marks, List.getElem?_map] at ran
  rw [marks', List.getElem?_map]
  cases found : taken[index]? with
  | none =>
    rw [found] at ran
    cases ran
    refine ⟨rfl, rfl, ?_⟩
    change Follows source session reader (gone + 0)
    rw [Int.add_zero]
    exact follows
  | some mark =>
    rw [found] at ran
    cases ran
    refine ⟨rfl, rfl, ⟨?_, follows.reads, each mark (List.mem_of_getElem? found), ?_, taken, rfl, rfl, each⟩⟩
    · intro peeked
      cases peeked
    · have line := follows.line
      change (session.lexer.line : Int) = placeLine source mark.2 +
        (gone + (placeLine source reader.place - placeLine source mark.2))
      omega

/-- Each call keeps the lexer where the reader is, and answers as the reader
does, but for the line. -/
theorem Follows.perform {call : Call} {response : Option Token} (follows : Follows source session reader gone)
    (ran : session.perform call = .ok (response, after)) :
    Follows source after (reader.perform source call).2 (gone + reader.goesBack source call) ∧
      (response = (reader.perform source call).1 ↔ (call.asks = true → gone = 0)) := by
  cases call with
  | next =>
    obtain ⟨further, answer⟩ := follows.next ran
    have none_ : gone + reader.goesBack source .next = gone := Int.add_zero gone
    rw [none_]
    exact ⟨further, answer.trans ⟨fun made _ => made, fun made => made rfl⟩⟩
  | peek =>
    obtain ⟨further, answer⟩ := follows.peek ran
    have none_ : gone + reader.goesBack source .peek = gone := Int.add_zero gone
    rw [none_]
    exact ⟨further, answer.trans ⟨fun made _ => made, fun made => made rfl⟩⟩
  | mark =>
    cases ran
    have none_ : gone + reader.goesBack source .mark = gone := Int.add_zero gone
    rw [none_]
    exact ⟨follows.mark, iff_of_true rfl (fun asks => by cases asks)⟩
  | restore index =>
    obtain ⟨nothing, nothing', further⟩ := follows.restore ran
    exact ⟨further, iff_of_true (nothing.trans nothing'.symm) (fun asks => by cases asks)⟩

theorem Follows.run {calls : List Call} {responses : List (Option Token)} (follows : Follows source session reader gone)
    (ran : session.run calls = .ok responses) :
    responses = reader.run source calls ↔ LinesMadeUp source reader gone calls := by
  induction calls generalizing session reader gone responses with
  | nil =>
    cases ran
    exact iff_of_true rfl trivial
  | cons call calls ih =>
    unfold Session.run at ran
    cases performed : session.perform call with
    | error e =>
      rw [performed] at ran
      cases ran
    | ok found =>
      obtain ⟨response, next⟩ := found
      rw [performed] at ran
      obtain ⟨further, answer⟩ := follows.perform performed
      cases later : next.run calls with
      | error e =>
        dsimp only at ran
        rw [later] at ran
        cases ran
      | ok others =>
        dsimp only at ran
        rw [later] at ran
        cases ran
        change response :: others = _ :: _ ↔ _
        rw [List.cons.injEq, answer, ih further later]
        rfl

theorem follows_start (source : Text) : Follows source { lexer := { source := source } } {} 0 := by
  refine ⟨fun peeked => ?_, rfl, ⟨Nat.zero_le _, reads_tokensOf source⟩, ?_, [], rfl, rfl, fun _ impossible => ?_⟩
  · cases peeked
  · rw [placeLine_eq (Nat.zero_le _)]
    rfl
  · cases impossible

/-- Calls that raise no error return what the reader does exactly when, whenever
a token is asked for, the restores so far have made up for the lines that they
have gone back over. -/
theorem calls_transparent_iff (source : Text) (calls : List Call) (responses : List (Option Token))
    (ran : ({ lexer := { source := source } } : Session).run calls = .ok responses) :
    responses = ({} : Reader).run source calls ↔ LinesMadeUp source {} 0 calls :=
  (follows_start source).run ran

theorem calls_transparent_iff_label :
    [none, some { type := .Identifier, text := "a".toList }, some { type := .Colon, text := [':'] }, none,
        some { type := .Identifier, text := "a".toList }] =
      ({} : Reader).run "a:\n".toList [.mark, .next, .peek, .restore 0, .next] ↔
    LinesMadeUp "a:\n".toList {} 0 [.mark, .next, .peek, .restore 0, .next] :=
  calls_transparent_iff "a:\n".toList [.mark, .next, .peek, .restore 0, .next] _ (by decide +kernel)

/-- A newline is read, taken back and read again: it is then on the second line. -/
theorem calls_transparent_fails_for_newline :
    ¬ ∀ source calls responses, ({ lexer := { source := source } } : Session).run calls = .ok responses →
      responses = ({} : Reader).run source calls := by
  intro transparent
  have ran : ({ lexer := { source := ['\n'] } } : Session).run [.mark, .next, .restore 0, .next] =
      .ok [none, some { type := .Newline, text := ['\\', 'n'], line := 1 }, none,
        some { type := .Newline, text := ['\\', 'n'], line := 2 }] := by decide +kernel
  have same := transparent ['\n'] [.mark, .next, .restore 0, .next] _ ran
  exact absurd same (by decide +kernel)

end Lexer

end VirtualMachine
