import SegAsm.Proofs.Lexeme.Tokenization
import SegAsm.Proofs.Reformat
import SegAsm.Raw

/-! Sources of bytes. On UTF-8 nothing is masked or replaced, so that assembling and laying out are what
they are on texts. Elsewhere laying out makes three bytes of one in a text constant. -/
namespace SegAsm

open Text

section TextConstant

theorem extract_between {bs middle : List UInt8} {x y : UInt8} {first last : Nat}
    (hlast : last ≤ bs.length) (h : bs.extract first last = x :: (middle ++ [y]))
    (tail : List UInt8) : (bs ++ tail).extract (first + 1) (last - 1) = middle := by
  rw [List.extract_eq_take_drop] at h ⊢
  have hlength : last - first = middle.length + 2 := by
    have hcount := congrArg List.length h
    rw [List.length_take, List.length_drop, List.length_cons, List.length_append,
      List.length_singleton] at hcount
    omega
  have hdrop : (bs ++ tail).drop (first + 1) =
      middle ++ ([y] ++ ((bs.drop first).drop (last - first) ++ tail)) := by
    have hsplit := List.take_append_drop (last - first) (bs.drop first)
    generalize (bs.drop first).drop (last - first) = rest at hsplit ⊢
    rw [← List.drop_drop, List.drop_append_of_le_length (by omega), ← hsplit, h]
    simp
  rw [hdrop, List.take_left' (by omega)]

/-- What a text constant emits are its characters between the quotes. -/
def Lexeme.inner (l : Lexeme) : List Char :=
  (l.text.toList.drop 1).dropLast

theorem Lexeme.Scanned.bytes_quoted {l : Lexeme} (hl : l.Scanned) (hk : l.kind = .quoted) :
    bytes l.text = 0x27 :: (encode l.inner ++ [0x27]) := by
  have hquoted : LexemeKind.isQuotedWord l.text.toList = true := by
    have haccepts := hl.accepts
    rwa [hk] at haccepts
  have hquote : encode ['\x27'] = [0x27] := by decide
  rw [bytes_eq_encode]
  unfold inner
  unfold LexemeKind.isQuotedWord at hquoted
  split at hquoted
  · rename_i rest heq
    rw [heq, List.drop_one, List.tail_cons]
    rw [Bool.and_eq_true, beq_iff_eq] at hquoted
    obtain ⟨init, hinit⟩ := List.getLast?_eq_some_iff.mp hquoted.1
    rw [hinit, List.dropLast_concat, ← List.singleton_append, encode_append, encode_append, hquote]
    rfl
  · cases hquoted

theorem mem_lexemes_of_data {text : String} {type : SymbolType} {name value : Lexeme}
    (hst : (classify (lexemes text)).statement? = some (.data type name value)) :
    value ∈ lexemes text := by
  have hread := readFrom_of_statement? Lexeme.scanned_of_mem_lexemes hst
  have hsuffix := operands_suffix (lexemes text)
  generalize (classify (lexemes text)).operands = os at hread hsuffix
  cases hread
  exact hsuffix.subset (by simp)

/-- A text constant on the line emits its own bytes, if it emits any. -/
def LineRecord.EmitsText (r : LineRecord) : Prop :=
  ∀ type name value, (classify (lexemes r.text)).statement? = some (.data type name value) →
    value.kind = .quoted → r.code = [] ∨ r.code = (encode value.inner).map .byte

namespace State

theorem code_of_text (s : State) (line : Nat) (text : String) {c : Classified}
    {type : SymbolType} {name value : Lexeme}
    (hst : c.statement? = some (.data type name value)) (hk : value.kind = .quoted) :
    (s.record line text c).code = [] ∨
      (s.record line text c).code = (encode value.inner).map .byte := by
  have hcode : (s.record line text c).code = (s.perform line text c).2.code := rfl
  rw [hcode, perform_of_statement hst]
  dsimp only [execute]
  unfold data
  split_ifs
  · exact .inl rfl
  · refine .inr ?_
    dsimp only
    unfold Context.datum
    rw [if_pos hk]
    rfl

theorem emitsText_record (s : State) (line : Nat) (text : String) :
    (s.record line text (classify (lexemes text))).EmitsText := by
  intro type name value hst hk
  rw [record_text] at hst
  exact code_of_text s line text hst hk

theorem emitsText_of_firstPass {s : State} {lines : List String} {i : Nat} {r : LineRecord}
    (h : (s.run lines).2.firstPass[i]? = some r) : lines[i]? = some r.text ∧ r.EmitsText := by
  rw [getElem?_firstPass] at h
  obtain ⟨text, htext, rfl⟩ := Option.map_eq_some_iff.mp h
  exact ⟨by rw [htext, record_text], emitsText_record _ i text⟩

/-- The second pass changes the code of jumps alone. -/
theorem emitsText_of_lines {s : State} {lines : List String} {i : Nat} {r : LineRecord}
    (h : (s.run lines).2.lines[i]? = some r) : lines[i]? = some r.text ∧ r.EmitsText := by
  obtain ⟨r₀, h₀, -, hplace⟩ := exists_firstPass_of_lines h
  obtain ⟨htext, -⟩ := emitsText_of_firstPass h₀
  rw [← hplace.text] at htext
  refine ⟨htext, fun type name value hst hk => ?_⟩
  have hr := eq_record_of_statement htext h hst (by simp [Statement.kind])
  have hemits := emitsText_record (s.after (lines.take i)) i r.text
  rw [← hr] at hemits
  exact hemits type name value hst hk

end State

end TextConstant

namespace Raw

section Valid

theorem masked_bytes (s : String) : masked (bytes s) = s := by
  rw [masked, decode_bytes, String.ofList_toList]

theorem splitOn_bytes (s : String) : (bytes s).splitOn 0x0a = (pieces s).map bytes := by
  have hsplit := splitOn_encode (d := '\n') (by decide) s.toList
  rw [← bytes_eq_encode] at hsplit
  refine hsplit.trans ?_
  rw [pieces, List.map_map]
  exact List.map_congr_left fun part _ => (bytes_ofList part).symm

/-- A line of a source stands at the start of its piece, with a carriage return behind it or not. -/
theorem exists_piece {source text : String} {i : Nat} (h : (splitLines source)[i]? = some text) :
    ∃ tail, ((bytes source).splitOn 0x0a)[i]? = some (bytes text ++ tail) := by
  have hchomp : ((pieces source).map chomp)[i]? = some text := by
    obtain hlines | hlines := map_chomp_pieces source
    · rwa [hlines]
    · rw [hlines, List.getElem?_append_left (List.getElem?_eq_some_iff.mp h).1, h]
  rw [List.getElem?_map] at hchomp
  obtain ⟨piece, hpiece, rfl⟩ := Option.map_eq_some_iff.mp hchomp
  obtain ⟨tail, htail⟩ := prefix_dropReturn piece.toList
  refine ⟨encode tail, ?_⟩
  rw [splitOn_bytes, List.getElem?_map, hpiece, Option.map_some, chomp, bytes_ofList,
    ← encode_append, htail, ← bytes_eq_encode]

/-- Where a line has no masks, every text constant emits its own bytes already. -/
theorem unmask_bytes {r : LineRecord} (h : r.EmitsText) (tail : List UInt8) :
    unmask (bytes r.text ++ tail) r = r := by
  unfold unmask
  cases hst : (classify (lexemes r.text)).statement? with
  | none => rfl
  | some st =>
    cases st with
    | data type name value =>
      dsimp only
      split_ifs with hemits
      · obtain ⟨hquoted, hne⟩ : value.kind = .quoted ∧ r.code ≠ [] := by simpa using hemits
        have hmem := mem_lexemes_of_data hst
        have htoken := (isTokenization_lexemes r.text).token value hmem
        have hstop : value.stop ≤ (bytes r.text).length :=
          htoken.stop_le.trans (List.takeWhile_prefix _).length_le
        have hslice := htoken.slice.symm.trans
          ((Lexeme.scanned_of_mem_lexemes value hmem).bytes_quoted hquoted)
        rw [extract_between hstop hslice, ← (h type name value hst hquoted).resolve_left hne]
      · rfl
    | _ => rfl

theorem zipWith_unmask {source : String} {rs : List LineRecord}
    (h : ∀ (i : Nat) (r : LineRecord), rs[i]? = some r →
      (splitLines source)[i]? = some r.text ∧ r.EmitsText) :
    List.zipWith unmask ((bytes source).splitOn 0x0a) rs = rs := by
  apply List.ext_getElem?
  intro i
  rw [List.getElem?_zipWith]
  cases hr : rs[i]? with
  | none => cases ((bytes source).splitOn 0x0a)[i]? <;> rfl
  | some r =>
    obtain ⟨htext, hemits⟩ := h i r hr
    obtain ⟨tail, hpiece⟩ := exists_piece htext
    rw [hpiece]
    exact congrArg some (unmask_bytes hemits tail)

/-- A source in UTF-8 is assembled as its text is. -/
theorem assemble_bytes (source : String) : assemble (bytes source) = SegAsm.assemble source := by
  have hlines : List.zipWith unmask ((bytes source).splitOn 0x0a) (SegAsm.assemble source).lines =
      (SegAsm.assemble source).lines :=
    zipWith_unmask fun i r => State.emitsText_of_lines
  have hfirst :
      List.zipWith unmask ((bytes source).splitOn 0x0a) (SegAsm.assemble source).firstPass =
        (SegAsm.assemble source).firstPass :=
    zipWith_unmask fun i r => State.emitsText_of_firstPass
  unfold assemble
  rw [masked_bytes]
  dsimp only
  rw [hlines, hfirst]

theorem layoutLine_bytes (column : Nat) (line : String) :
    layoutLine column (bytes line) = bytes (Layout.layoutLine column line) := by
  have hreturn : ((bytes line).getLast? = some 0x0d) = (line.toList.getLast? = some '\r') := by
    rw [bytes_eq_encode]
    exact propext (getLast?_encode_iff (d := '\r') (by decide) line.toList)
  have hcr : encode ['\r'] = [0x0d] := by decide
  have hspace : encode [' '] = [0x20] := by decide
  have hkept : (if line.toList.getLast? = some '\r' then (bytes line).dropLast else bytes line) =
      encode (dropReturn line.toList) := by
    unfold dropReturn
    split_ifs with hlast
    · obtain ⟨init, hinit⟩ := List.getLast?_eq_some_iff.mp hlast
      rw [bytes_eq_encode, hinit, encode_append, hcr, List.dropLast_concat, List.dropLast_concat]
    · exact bytes_eq_encode line
  have htake (cs : List Char) : (encode cs).takeWhile (· ≠ 0x3b) = encode (cs.takeWhile (· ≠ ';')) :=
    takeWhile_encode (d := ';') (by decide) cs
  have hdrop (cs : List Char) : (encode cs).dropWhile (· ≠ 0x3b) = encode (cs.dropWhile (· ≠ ';')) :=
    dropWhile_encode (d := ';') (by decide) cs
  unfold layoutLine Layout.layoutLine
  simp only [hreturn, hkept, htake, hdrop, decode_encode, bytes_ofList, encode_append, apply_ite encode,
    isEmpty_encode, hcr, hspace, encode_nil]

/-- A source in UTF-8 is laid out as its text is. -/
theorem reformat_bytes (source : String) : reformat (bytes source) = bytes (Layout.reformat source) := by
  have hfeed : encode "\n".toList = [0x0a] := by decide
  unfold reformat Layout.reformat
  dsimp only
  rw [assemble_bytes, splitOn_bytes, bytes_eq_encode, String.toList_intercalate, encode_intercalate, hfeed,
    List.map_map, List.map_map, List.map_map]
  refine congrArg ([0x0a].intercalate ·) (List.map_congr_left fun line _ => ?_)
  rw [Function.comp_apply, Function.comp_apply, Function.comp_apply, layoutLine_bytes, bytes_eq_encode]

end Valid

/-- Laying out a source in UTF-8 does not change what it assembles to, if all of its white characters
are separators of lexemes. -/
theorem sameOutcome_of_validUTF8 (source : List UInt8) (hvalid : source.toByteArray.IsValidUTF8)
    (hwhite : PlainWhite (Text.decode replacement source)) :
    (assemble (reformat source)).SameOutcome (assemble source) := by
  obtain ⟨cs, hcs⟩ := hvalid
  obtain rfl : source = bytes (String.ofList cs) := by
    have hdata := congrArg (fun b : ByteArray => b.data.toList) hcs
    rw [List.utf8Encode, List.data_toByteArray, List.data_toByteArray] at hdata
    rw [bytes_ofList]
    exact hdata
  rw [decode_bytes] at hwhite
  rw [reformat_bytes, assemble_bytes, assemble_bytes]
  exact reformat_sameOutcome _ hwhite

/-- A labelled line, a jump, a line that is not correct, a text that is not ASCII and a last line of
blanks, which is lost. -/
theorem sameOutcome_of_labelled :
    let source := bytes "\tlong :dec   ax ;go\r\njmp\tlong;\n? 'a  b'\nx  db 'é'\n  "
    reformat source = bytes "long: dec ax ;go\r\n      jmp long ;\n? 'a  b'\nx db 'é'\n" ∧
      (assemble source).lines.map LineRecord.size = [1, 3, 0, 2, 0] ∧
      (assemble source).errorLines = [3] ∧
      (assemble (reformat source)).SameOutcome (assemble source) := by
  intro source
  have hfacts : (Text.decode replacement source).all (fun c => !isWhite c || isSeparator c) = true ∧
      reformat source = bytes "long: dec ax ;go\r\n      jmp long ;\n? 'a  b'\nx db 'é'\n" ∧
      (assemble source).lines.map LineRecord.size = [1, 3, 0, 2, 0] ∧
      (assemble source).errorLines = [3] := by
    decide +kernel
  obtain ⟨hwhite, hlayout, hsizes, herrors⟩ := hfacts
  have hvalid : source.toByteArray.IsValidUTF8 := ⟨_, congrArg List.toByteArray (bytes_eq_encode _)⟩
  refine ⟨hlayout, hsizes, herrors, sameOutcome_of_validUTF8 source hvalid fun c hc hc' => ?_⟩
  simpa [hc'] using List.all_eq_true.mp hwhite c hc

/-- A text constant of one byte that belongs to no character: laid out it has three bytes, and what is
declared behind it has moved. -/
theorem not_sameOutcome_of_stray_byte :
    let source := bytes "X DB '" ++ 0xe9 :: bytes "'\nY DB 1"
    PlainWhite (Text.decode replacement source) ∧
      reformat source = bytes "X DB '\ufffd'\nY DB 1" ∧
      (assemble source).lines.map (·.code.bytes) = [[0xe9], [1]] ∧
      (assemble source).symbols.map Symbol.offset = [0, 1] ∧
      (assemble (reformat source)).lines.map (·.code.bytes) = [[0xef, 0xbf, 0xbd], [1]] ∧
      (assemble (reformat source)).symbols.map Symbol.offset = [0, 3] ∧
      ¬(assemble (reformat source)).SameOutcome (assemble source) := by
  intro source
  have hfacts : (Text.decode replacement source).all (fun c => !isWhite c || isSeparator c) = true ∧
      reformat source = bytes "X DB '\ufffd'\nY DB 1" ∧
      (assemble source).lines.map (·.code.bytes) = [[0xe9], [1]] ∧
      (assemble source).symbols.map Symbol.offset = [0, 1] ∧
      (assemble (reformat source)).lines.map (·.code.bytes) = [[0xef, 0xbf, 0xbd], [1]] ∧
      (assemble (reformat source)).symbols.map Symbol.offset = [0, 3] := by
    decide +kernel
  obtain ⟨hwhite, hlayout, hbytes, hoffsets, hbytes', hoffsets'⟩ := hfacts
  refine ⟨fun c hc hc' => ?_, hlayout, hbytes, hoffsets, hbytes', hoffsets', fun hsame => ?_⟩
  · simpa [hc'] using List.all_eq_true.mp hwhite c hc
  · rw [hsame.symbols, hoffsets] at hoffsets'
    exact absurd hoffsets' (by decide)

end Raw

end SegAsm
