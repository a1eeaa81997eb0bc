import WorkflowLens.Proofs.Completion.Safety
import WorkflowLens.Proofs.Text.Runs
import WorkflowLens.Proofs.Yaml.Comments

/-!
# Two requests that stop

The first request is not made.  The last line of its text opens a sequence behind a key and goes on
with blanks.  It is completed by a closing bracket.  If the text is one byte short of 2^32 bytes,
the completed text is not, and the sequence, which starts at 1, ends where 32 bits begin anew.  The
text is read for any number of blanks, since it is only their number that matters.  One token comes
after the other, and the blanks are passed over at once.

The second request is made, for a short text, but it gets no answer from its session.  The caret is
where the inputs of an action are asked for, and there is no time until which they would be good.

* `openText`, `closedTree`: the first text, and the tree of the completed text.
* `Tree.decodePartial?_openText`: the text has this tree, for any number of blanks.
* `Request.stops`: the two requests.
-/

namespace WorkflowLens

open Yaml

/-- A key, an opening bracket, and blanks. -/
def openLine (blanks : Nat) : Text := 'k' :: ':' :: ' ' :: '[' :: List.replicate blanks ' '

/-- The text with this line as its second one. -/
def openText (blanks : Nat) : Text := '\n' :: openLine blanks

/-- The tree of the completed text. -/
def closedTree (blanks : Nat) : Tree :=
  ⟨#[⟨none, none, .mapping, none, [1], 0, 2, Span.upTo 0 (blanks + 6)⟩,
    ⟨some "k", none, .sequence, some 0, [], 0, 2, Span.upTo 1 (blanks + 6)⟩]⟩

theorem byteSize_openText (blanks : Nat) : (openText blanks).byteSize = blanks + 5 := by
  have hblanks : Text.byteSize (List.replicate blanks ' ') = blanks := by
    induction blanks with
    | zero => rfl
    | succ blanks ih =>
      rw [List.replicate_succ, Text.byteSize_cons, ih, Nat.add_comm]
      rfl
  have hbracket : Text.byteSize ['\n', 'k', ':', ' ', '['] = 5 := rfl
  have htext : openText blanks = ['\n', 'k', ':', ' ', '['] ++ List.replicate blanks ' ' := rfl
  rw [htext, Text.byteSize_append, hblanks, hbracket, Nat.add_comm]

/-! ## Tokens -/

namespace Yaml.Scan

/-- One round of reading. -/
theorem readTokens_succ (steps : Nat) (s : Scan) :
    readTokens (steps + 1) s = s.atToken >>= fun s => match s.cursor.rest with
      | [] => (s.closeBlocks fun _ => true).dropKey >>= fun s => .ok s.tokens
      | c :: _ => s.readToken c >>= readTokens steps := by
  rw [readTokens, atToken, bind_assoc]
  refine congrArg (toNextToken (s.cursor.rest.length + 1) s >>= ·) (funext fun s => ?_)
  rw [bind_assoc]
  rfl

/-- A round of reading in which a token is read. -/
theorem readTokens_of_token {s here next : Scan} {c : Char} {t : Text}
    (hhere : s.atToken = .ok here) (hrest : here.cursor.rest = c :: t)
    (hnext : here.readToken c = .ok next) (steps : Nat) :
    readTokens (steps + 1) s = readTokens steps next := by
  rw [readTokens_succ, hhere]
  show (match here.cursor.rest with | [] => _ | c :: _ => here.readToken c >>= readTokens steps) = _
  rw [hrest]
  show here.readToken c >>= readTokens steps = _
  rw [hnext]
  rfl

/-- The last round of reading. -/
theorem readTokens_of_end {s here last : Scan} (hhere : s.atToken = .ok here)
    (hrest : here.cursor.rest = []) (hlast : (here.closeBlocks fun _ => true).dropKey = .ok last)
    (steps : Nat) : readTokens (steps + 1) s = .ok last.tokens := by
  rw [readTokens_succ, hhere]
  show (match here.cursor.rest with
    | [] => (here.closeBlocks fun _ => true).dropKey >>= fun s => .ok s.tokens
    | c :: _ => _) = _
  rw [hrest]
  show (here.closeBlocks fun _ => true).dropKey >>= (fun s => .ok s.tokens) = _
  rw [hlast]
  rfl

/-- The state at the key. -/
def atKey (rest : Text) : Scan := ⟨⟨rest, 1, 1, 0⟩, [], [], [], none, true⟩

/-- The state behind the key. -/
def afterKey (rest : Text) : Scan :=
  ⟨⟨rest, 2, 1, 1⟩, [.scalar true ['k']], [], [], some ⟨false, 0, 1, 1, 0⟩, false⟩

/-- The state behind the colon and `blanks` blanks. -/
def afterColon (blanks : Nat) (rest : Text) : Scan :=
  ⟨⟨rest, blanks + 3, 1, blanks + 2⟩, [.value, .scalar true ['k'], .key, .blockMappingStart], [0],
    [], none, false⟩

/-- The state behind the bracket and `blanks` blanks. -/
def afterBracket (blanks : Nat) (rest : Text) : Scan :=
  ⟨⟨rest, blanks + 5, 1, blanks + 4⟩,
    [.flowSequenceStart, .value, .scalar true ['k'], .key, .blockMappingStart], [0], [none], none,
    true⟩

/-- The tokens up to the bracket. -/
theorem readTokens_openText (steps : Nat) (rest : Text) :
    readTokens (steps + 3) (ofText ('\n' :: 'k' :: ':' :: ' ' :: '[' :: rest))
      = readTokens steps (afterBracket 0 rest) := by
  have hkey : (ofText ('\n' :: 'k' :: ':' :: ' ' :: '[' :: rest)).atToken
      = .ok (atKey ('k' :: ':' :: ' ' :: '[' :: rest)) := rfl
  have hread : (atKey ('k' :: ':' :: ' ' :: '[' :: rest)).readToken 'k'
      = .ok (afterKey (':' :: ' ' :: '[' :: rest)) := rfl
  have hcolon : (afterKey (':' :: ' ' :: '[' :: rest)).atToken
      = .ok (afterKey (':' :: ' ' :: '[' :: rest)) := rfl
  have hvalue : (afterKey (':' :: ' ' :: '[' :: rest)).readToken ':'
      = .ok (afterColon 0 (' ' :: '[' :: rest)) := rfl
  have hblank : (afterColon 0 (' ' :: '[' :: rest)).atToken
      = .ok (afterColon 1 ('[' :: rest)) := rfl
  have hbracket : (afterColon 1 ('[' :: rest)).readToken '[' = .ok (afterBracket 0 rest) := rfl
  calc readTokens (steps + 3) (ofText ('\n' :: 'k' :: ':' :: ' ' :: '[' :: rest))
    _ = readTokens (steps + 2) (afterKey (':' :: ' ' :: '[' :: rest)) :=
      readTokens_of_token hkey rfl hread _
    _ = readTokens (steps + 1) (afterColon 0 (' ' :: '[' :: rest)) :=
      readTokens_of_token hcolon rfl hvalue _
    _ = readTokens steps (afterBracket 0 rest) := readTokens_of_token hblank rfl hbracket _

/-- Blanks on the line of the next token are passed over. -/
theorem toNextToken_of_skipRun {s : Scan} {c : Cursor} (hindex : s.cursor.index ≠ 0)
    (hskip : s.cursor.skipRun
      (fun x => x == ' ' || ((s.inFlow || !s.keyAllowed) && x == '\t')) = c)
    (hcomment : (c.peek? == some '#') = false) (hbreak : c.atBreak = false) (steps : Nat) :
    toNextToken (steps + 1) s = .ok { s with cursor := c } := by
  have hmark : ¬ (s.cursor.index = 0 ∧ s.cursor.peek? = some '\uFEFF') := fun h => hindex h.1
  simp only [toNextToken, if_neg hmark, hskip, hcomment, hbreak, Bool.false_eq_true, if_false]

/-- Blanks behind the bracket are passed over. -/
theorem atToken_afterBracket (blanks : Nat) {rest : Text} (hrest : rest = [] ∨ rest = [']']) :
    (afterBracket 0 (List.replicate blanks ' ' ++ rest)).atToken
      = .ok (afterBracket blanks rest) := by
  have hrun : (List.replicate blanks ' ' ++ rest).takeWhile
      (fun x => x == ' ' || (true && x == '\t')) = List.replicate blanks ' ' := by
    rw [List.takeWhile_append_of_pos (by simp), List.takeWhile_eq_nil_iff.mpr, List.append_nil]
    rcases hrest with rfl | rfl <;> simp
  have hskip : (⟨List.replicate blanks ' ' ++ rest, 5, 1, 4⟩ : Cursor).skipRun
      (fun x => x == ' ' || (true && x == '\t')) = ⟨rest, blanks + 5, 1, blanks + 4⟩ := by
    rw [Cursor.skipRun, Cursor.takeRun, hrun, Cursor.advance, List.length_replicate,
      List.drop_left' (List.length_replicate ..), Nat.add_comm 5, Nat.add_comm 4]
  rw [atToken, toNextToken_of_skipRun (Nat.succ_ne_zero 4) hskip]
  · rfl
  · rcases hrest with rfl | rfl <;> rfl
  · rcases hrest with rfl | rfl <;> rfl

end Yaml.Scan

theorem isAllowed_of_mem_openText {blanks : Nat} {c : Char} (hc : c ∈ openText blanks) :
    isAllowed c = true := by
  simp only [openText, openLine, List.mem_cons, List.mem_replicate] at hc
  rcases hc with rfl | rfl | rfl | rfl | rfl | ⟨-, rfl⟩ <;> decide

/-- Without a closing bracket the tokens end behind the blanks. -/
theorem tokens_openText (blanks : Nat) : Token.ofText (openText blanks)
    = .ok [.blockMappingStart, .key, .scalar true ['k'], .value, .flowSequenceStart] := by
  have hall : (openText blanks).all isAllowed = true :=
    List.all_eq_true.mpr fun _ => isAllowed_of_mem_openText
  have hsteps : (openText blanks).length + 1 = blanks + 2 + 1 + 3 := by
    simp [openText, openLine]
  have hend := Scan.readTokens_of_end (Scan.atToken_afterBracket blanks (.inl rfl)) rfl rfl
    (blanks + 2)
  rw [List.append_nil] at hend
  rw [Token.ofText, if_pos hall, hsteps, openText, openLine, Scan.readTokens_openText, hend]
  rfl

/-- With a closing bracket the sequence and the mapping are closed. -/
theorem tokens_openText_append (blanks : Nat) : Token.ofText (openText blanks ++ [']'])
    = .ok [.blockMappingStart, .key, .scalar true ['k'], .value, .flowSequenceStart,
        .flowSequenceEnd, .blockEnd] := by
  have hall : (openText blanks ++ [']']).all isAllowed = true := by
    refine List.all_eq_true.mpr fun c hc => ?_
    rcases List.mem_append.mp hc with hc | hc
    · exact isAllowed_of_mem_openText hc
    · rw [List.mem_singleton.mp hc]
      decide
  have hsteps : (openText blanks ++ [']']).length + 1 = blanks + 2 + 1 + 1 + 3 := by
    simp [openText, openLine]
  have hclose := Scan.readTokens_of_token (Scan.atToken_afterBracket blanks (.inr rfl)) rfl rfl
    (blanks + 2 + 1)
  have htext : openText blanks ++ [']']
      = '\n' :: 'k' :: ':' :: ' ' :: '[' :: (List.replicate blanks ' ' ++ [']']) := rfl
  rw [Token.ofText, if_pos hall, hsteps, htext, Scan.readTokens_openText, hclose,
    Scan.readTokens_of_end rfl rfl rfl]
  rfl

/-! ## Trees -/

namespace Tree

/-- The text does not decode as it stands. -/
theorem decode?_openText (blanks : Nat) : decode? (openText blanks) = .ok none := by
  have hvalue : Value.ofText (openText blanks) = .error .unexpectedToken := by
    rw [Value.ofText, tokens_openText]
    rfl
  rw [decode?, decode_of_error hvalue]

/-- The completed text decodes. -/
theorem decode?_openText_append (blanks : Nat) :
    decode? (openText blanks ++ [']']) = .ok (some (closedTree blanks)) := by
  have hvalue : Value.ofText (openText blanks ++ [']'])
      = .ok (.mapping [(.string "k", .sequence [])]) := by
    rw [Value.ofText, tokens_openText_append]
    rfl
  have hstarts : (ofOutline (Outline.ofValue (.mapping [(.string "k", .sequence [])]))).starts
      (openText blanks ++ [']']) = .ok [0, 1] := rfl
  have hdecode : decode (openText blanks ++ [']']) = .ok (closedTree blanks) := by
    rw [decode, hvalue]
    show ((ofOutline (Outline.ofValue (.mapping [(.string "k", .sequence [])]))).locate
      (openText blanks ++ [']'])).mapError .badCut = _
    rw [locate, hstarts, Text.byteSize_append, byteSize_openText]
    rfl
  rw [decode?, hdecode]

/-- The last line is completed by a bracket. -/
theorem exists_repairs_openLine (blanks : Nat) :
    ∃ others, repairs (openLine blanks) = (openLine blanks ++ [']']) :: others := by
  have hopen : OpenParts.ofLine (openLine blanks) = ⟨none, [']']⟩ := by
    show (List.replicate blanks ' ').foldl OpenParts.next ⟨none, [']']⟩ = _
    induction blanks with
    | zero => rfl
    | succ blanks ih => exact ih
  refine ⟨(keyLine? (openLine blanks)).toList, ?_⟩
  rw [repairs, closeLine?, hopen]
  rfl

/-- **The text has the tree of the completed text.** -/
theorem decodePartial?_openText (blanks : Nat) :
    decodePartial? (openText blanks) = .ok (some (closedTree blanks)) := by
  have hline : ∀ c ∈ openLine blanks, (c != '\n') = true := by
    intro c hc
    simp only [openLine, List.mem_cons, List.mem_replicate] at hc
    rcases hc with rfl | rfl | rfl | rfl | ⟨-, rfl⟩ <;> decide
  obtain ⟨others, hrepairs⟩ := exists_repairs_openLine blanks
  have htext : openText blanks = ['\n'] ++ openLine blanks := rfl
  have hlast : Text.takeEndWhile (fun c => c != '\n') (openText blanks) = openLine blanks := by
    rw [htext, Text.takeEndWhile_append_of_forall hline]
    rfl
  have hbefore : Text.dropEndWhile (fun c => c != '\n') (openText blanks) = ['\n'] := by
    rw [htext, Text.dropEndWhile_append_of_forall hline]
    rfl
  rw [decodePartial?, hlast, hbefore, hrepairs, List.map_cons, decodeFirst?, decode?_openText]
  show decodeFirst? ((openText blanks ++ [']']) :: _) = _
  rw [decodeFirst?, decode?_openText_append]
  rfl

end Tree

/-! ## Requests -/

namespace Request

/-- The caret's line goes to the end of the text. -/
theorem caretLineEnd_openText (blanks : Nat) :
    (openText blanks).caretLineEnd 5 = (openText blanks).byteSize := by
  have hfloor : (openText blanks).splitAtFloor 5
      = (['\n', 'k', ':', ' ', '['], List.replicate blanks ' ') := by
    cases blanks <;> rfl
  have hrun : (List.replicate blanks ' ').takeWhile (fun c => !Text.isLineEnd c)
      = List.replicate blanks ' ' := by
    rw [List.takeWhile_eq_self_iff]
    intro c hc
    rw [(List.mem_replicate.mp hc).2]
    rfl
  rw [Text.caretLineEnd, hfloor]
  dsimp only
  rw [hrun, ← Text.byteSize_append]
  rfl

/-- The request for the text has the tree of the completed text. -/
theorem exists_ofText_openText (blanks : Nat) :
    ∃ r, ofText (openText blanks) .workflow 5 = .ok r ∧
      r.upToCaret.tree = some (closedTree blanks) := by
  obtain ⟨r, front, after, whole, hr, -, hcaret, -, htext, hfront, hpartial, -⟩ :=
    exists_ofText_eq (openText blanks) .workflow 5
  have hfive : min 5 (openText blanks).byteSize = 5 := by
    rw [byteSize_openText]
    omega
  rw [hcaret, hfive, caretLineEnd_openText] at hfront
  have hall : (openText blanks).cut (openText blanks).byteSize = .ok (openText blanks, []) :=
    Text.cut_eq_ok_iff.mpr ⟨(List.append_nil _).symm, rfl⟩
  rw [Text.cut_eq_ok_iff.mpr ⟨htext, hfront⟩, Except.ok.injEq, Prod.mk.injEq] at hall
  rw [hall.1, Tree.decodePartial?_openText] at hpartial
  exact ⟨r, hr, (Except.ok.inj hpartial).symm⟩

/-- There is no request for a text below 2^32 bytes if the completed text is not below. -/
theorem make_openText : (openText (Offset.bound - 6)).byteSize < Offset.bound ∧
    make (openText (Offset.bound - 6)) .workflow 5 = .error (.span 1 0) := by
  have hsize : (openText (Offset.bound - 6)).byteSize < Offset.bound := by
    rw [byteSize_openText, Offset.bound]
    omega
  obtain ⟨r, hr, htree⟩ := exists_ofText_openText (Offset.bound - 6)
  have hpack : (closedTree (Offset.bound - 6)).pack = .error (.span 1 0) := by decide +kernel
  have hindex : r.upToCaret.pack = .error (.span 1 0) := by
    rw [Index.pack, htree]
    show (closedTree (Offset.bound - 6)).pack >>= _ = _
    rw [hpack]
    rfl
  refine ⟨hsize, ?_⟩
  rw [make_eq_pack hsize hr, pack, hindex]
  rfl

/-! ### A session without room -/

/-- A step that uses an action, and an empty line for its inputs. -/
def stepText : Text :=
  "jobs:\n  b:\n    steps:\n      - uses: a/b@v1\n        with:\n          \n".toList

/-- The session in which a success is good for the longest time that can be said, after the first
second.  The action has one input. -/
def fullSession : Session :=
  .start ⟨Time.latest, 600⟩ ⟨fun _ => .ok "inputs:\n  k: x\n".toList, none, none⟩ 1

/-- A request that is made may still get no answer from its session. -/
theorem suggestions_fullSession : ∃ r, make stepText .workflow 67 = .ok r ∧
    ((r.suggestions Session.catalog).run.run fullSession).1 = .error (.time 1 Time.latest) := by
  have hasked : (match make stepText .workflow 67 with
      | .ok r => ((r.suggestions Session.catalog).run.run fullSession).1
      | .error _ => .ok []) = .error (.time 1 Time.latest) := by decide +kernel
  cases hmade : make stepText .workflow 67 with
  | ok r =>
    rw [hmade] at hasked
    exact ⟨r, rfl, hasked⟩
  | error fault =>
    rw [hmade] at hasked
    cases hasked

/-- **Requests are not safe for every text and every catalog.**  One is not made although its text
is below 2^32 bytes, and one is made of a short text and gets no answer from its session. -/
theorem stops :
    ((openText (Offset.bound - 6)).byteSize < Offset.bound ∧
      make (openText (Offset.bound - 6)) .workflow 5 = .error (.span 1 0)) ∧
    ∃ r, make stepText .workflow 67 = .ok r ∧
      ((r.suggestions Session.catalog).run.run fullSession).1 = .error (.time 1 Time.latest) :=
  ⟨make_openText, suggestions_fullSession⟩

end Request

end WorkflowLens
