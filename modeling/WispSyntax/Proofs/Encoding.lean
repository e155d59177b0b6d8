import WispSyntax.Proofs.LineEnds
import WispSyntax.Proofs.Stream

/-!
Texts as bytes. However the bytes of a text are cut into reads, they deliver the lines of the text
without the carriage returns at their ends (`ofReads_of_cut`), and the lines that a stream delivers
make up a text that has these lines (`ofText_of_delivers`).
-/

namespace WispSyntax

open CommandLine (unlines)

-- The bytes of a text.
def encode (text : List Char) : List UInt8 :=
  text.flatMap String.utf8EncodeChar

section
variable {c : Char} {text : List Char} {record : List UInt8} {line : String}

theorem ofNat_eq_lineFeed_iff {n : Nat} (h : n < 256) : UInt8.ofNat n = Read.lineFeed ↔ n = 10 := by
  rw [← UInt8.toNat_inj, UInt8.toNat_ofNat', Nat.mod_eq_of_lt h]
  rfl

-- All bytes of a character of more than one byte are above the characters of one byte.
theorem lineFeed_mem_utf8EncodeChar_iff : Read.lineFeed ∈ String.utf8EncodeChar c ↔ c = '\n' := by
  have newline : c = '\n' ↔ c.val.toNat = 10 := by
    rw [← Char.val_inj, ← UInt32.toNat_inj]
    rfl
  rw [newline]
  fun_cases String.utf8EncodeChar c <;>
    simp only [List.mem_cons, List.not_mem_nil, or_false, eq_comm (a := Read.lineFeed)]
  case case1 => exact ofNat_eq_lineFeed_iff (by omega)
  all_goals
    repeat rw [ofNat_eq_lineFeed_iff (by omega)]
    omega

theorem lineFeed_mem_encode_iff : Read.lineFeed ∈ encode text ↔ '\n' ∈ text := by
  simp [encode, lineFeed_mem_utf8EncodeChar_iff]

theorem encode_append (text text' : List Char) :
    encode (text ++ text') = encode text ++ encode text' :=
  List.flatMap_append

theorem encode_newline (rest : List Char) : encode ('\n' :: rest) = Read.lineFeed :: encode rest :=
  rfl

theorem toUTF8_eq (text : String) : text.toUTF8.data.toList = encode text.toList := by
  rw [String.toUTF8_eq_toByteArray, ← String.utf8Encode_toList, List.utf8Encode,
    List.data_toByteArray]
  rfl

theorem decode_encode (text : List Char) :
    Read.decode (encode text) = some (String.ofList (Read.dropReturns text)) := by
  have bytes : (⟨(encode text).toArray⟩ : ByteArray) = (String.ofList text).toByteArray := by
    rw [String.toByteArray_ofList, List.utf8Encode]
    exact ByteArray.ext (by simp [encode])
  rw [Read.decode, bytes, String.fromUTF8?, dif_pos (String.isValidUTF8 _)]
  change some (String.ofList (Read.dropReturns (String.ofList text).toList)) = _
  rw [String.toList_ofList]

theorem exists_of_decode (h : Read.decode record = some line) :
    ∃ text, record = encode text ∧ line = String.ofList (Read.dropReturns text) := by
  have ⟨text, decoded, line_eq⟩ := Option.map_eq_some_iff.mp h
  refine ⟨text.toList, ?_, line_eq.symm⟩
  rw [String.fromUTF8?] at decoded
  split at decoded <;> cases decoded
  case isTrue.refl valid =>
    rw [← toUTF8_eq]
    rfl

end

namespace SourceLine

-- A line as it comes from a stream.
def withoutReturns (l : SourceLine) : SourceLine :=
  { l with text := String.ofList (Read.dropReturns l.text.toList) }

theorem enumerate_withoutReturns (first : Nat) (texts : List (List Char)) :
    enumerate first (texts.map fun text => String.ofList (Read.dropReturns text)) =
      (enumerate first (texts.map String.ofList)).map withoutReturns := by
  induction texts generalizing first
  case nil              => rfl
  case cons text texts hi => simp [enumerate_cons, hi, withoutReturns]

end SourceLine

namespace Read

variable {n : Nat} {signals signals' rest : List Signal} {record data : List UInt8}
  {reads : List Read} {lines : List SourceLine} {failure : Option String}

theorem delivers_encode (n : Nat) (text : List Char) :
    Delivers n ((encode text).map .byte)
      (SourceLine.enumerate (n + 1)
        ((splitLines text).map fun line => String.ofList (dropReturns line))) none := by
  induction size : text.length using Nat.strongRecOn generalizing n text
  case ind hi =>
    by_cases inner : '\n' ∈ text
    case pos =>
      have ⟨line, rest, text_eq, inner⟩ := List.eq_append_cons_of_mem inner
      have shorter : rest.length < text.length := by
        rw [text_eq, List.length_append, List.length_cons]
        omega
      rw [text_eq, splitLines_cons_line inner, List.map_cons, SourceLine.enumerate_cons,
        encode_append, encode_newline, List.map_append, List.map_cons]
      refine .line (.fed ?_) ?_ (hi _ (size ▸ shorter) (n + 1) rest rfl)
      · rwa [lineFeed_mem_encode_iff]
      · rw [decode_encode, dropReturns_withoutReturn]
    case neg =>
      cases text
      case nil => exact .ends .done
      case cons c text =>
        rw [splitLines_unended inner (List.cons_ne_nil _ _)]
        refine .line (.last ?_ ?_) (decode_encode _) (.ends .done)
        · rwa [lineFeed_mem_encode_iff]
        · simp [encode, String.utf8EncodeChar_ne_nil]

-- A file is read in parts, none of which is empty. After the last of them nothing follows, however
-- often there is a further read.
inductive Yields : List UInt8 → List Read → Prop
  | done (n : Nat) : Yields [] (List.replicate n (.bytes []))
  | part {part data : List UInt8} {reads : List Read} (ne : part ≠ []) (next : Yields data reads) :
      Yields (part ++ data) (.bytes part :: reads)

theorem deliver_pauses (begun : List UInt8) (n : Nat) :
    deliver begun (List.replicate n .pause) = deliver begun [] := by
  cases n
  case zero   => rfl
  case succ n =>
    rw [List.replicate_succ, deliver, deliver]
    split
    case isTrue  => rfl
    case isFalse => cases n <;> rfl

theorem deliver_bytes_congr (h : ∀ begun, deliver begun signals = deliver begun signals')
    (begun data : List UInt8) :
    deliver begun (data.map .byte ++ signals) = deliver begun (data.map .byte ++ signals') := by
  induction data generalizing begun
  case nil => exact h begun
  case cons b data hi =>
    simp only [List.map_cons, List.cons_append, deliver, hi]

-- Neither the cuts between the parts nor the reads after the last part leave a trace.
theorem deliver_of_yields (h : Yields data reads) (begun : List UInt8) :
    deliver begun (reads.flatMap Read.signals) = deliver begun (data.map .byte) := by
  induction h generalizing begun
  case done n =>
    have pauses : (List.replicate n (bytes [])).flatMap Read.signals = List.replicate n .pause := by
      simp [List.flatMap_replicate, Read.signals]
    rw [pauses, deliver_pauses, List.map_nil]
  case part part data reads ne _ hi =>
    have part_eq : Read.signals (.bytes part) = part.map .byte := by
      cases part
      case nil  => contradiction
      case cons => rfl
    rw [List.flatMap_cons, part_eq, List.map_append]
    exact deliver_bytes_congr hi begun part

theorem ofReads_of_yields {text : String} (h : Yields text.toUTF8.data.toList reads) :
    Feed.ofReads reads = { lines := (Feed.ofText text).lines.map SourceLine.withoutReturns } := by
  have delivers := delivers_encode 0 text.toList
  rw [SourceLine.enumerate_withoutReturns, ← toUTF8_eq] at delivers
  have fed := feedFrom_of_delivers delivers
  rw [feedFrom, ← deliver_of_yields h] at fed
  exact fed

theorem yields_of_cut {parts : List (List UInt8)} (ne : ∀ part ∈ parts, part ≠ []) :
    Yields parts.flatten (parts.map bytes) := by
  induction parts
  case nil => exact .done 0
  case cons part parts hi =>
    have ⟨here, ne⟩ := List.forall_mem_cons.mp ne
    exact .part here (hi ne)

theorem ofReads_of_cut {text : String} {parts : List (List UInt8)}
    (cut : parts.flatten = text.toUTF8.data.toList) (ne : ∀ part ∈ parts, part ≠ []) :
    Feed.ofReads (parts.map bytes) =
      { lines := (Feed.ofText text).lines.map SourceLine.withoutReturns } :=
  ofReads_of_yields (cut ▸ yields_of_cut ne)

-- A line that comes from a stream has nothing at its end that could be taken for its ending.
theorem text_of_begins {text : String} (begins : Begins signals record rest)
    (decoded : decode record = some text) :
    '\n' ∉ text.toList ∧ withoutReturn text.toList = text.toList := by
  have inner : lineFeed ∉ record := by cases begins <;> assumption
  have ⟨line, record_eq, text_eq⟩ := exists_of_decode decoded
  have ⟨blanks, line_eq, _⟩ := dropReturns_append line
  rw [record_eq, lineFeed_mem_encode_iff, line_eq] at inner
  rw [text_eq, String.toList_ofList]
  refine ⟨fun h => inner (List.mem_append_left _ h), ?_⟩
  rw [withoutReturn, if_neg (getLast?_dropReturns line)]

theorem lines_of_delivers (h : Delivers n signals lines failure) :
    SourceLine.enumerate (n + 1) (lines.map (·.text)) = lines ∧
    ∀ l ∈ lines, '\n' ∉ l.text.toList ∧ withoutReturn l.text.toList = l.text.toList := by
  induction h
  case ends => exact ⟨rfl, nofun⟩
  case line begins decoded _ hi =>
    refine ⟨?_, List.forall_mem_cons.mpr ⟨text_of_begins begins decoded, hi.2⟩⟩
    rw [List.map_cons, SourceLine.enumerate_cons, hi.1]

-- The text that is made of the lines of a stream has these lines.
theorem ofText_of_delivers (h : Delivers 0 signals lines failure) :
    Feed.ofText (unlines (lines.map (·.text))) = { lines } := by
  have ⟨numbers, whole⟩ := lines_of_delivers h
  have inner : ∀ line ∈ lines.map (·.text), '\n' ∉ line.toList := by
    simpa using fun l hl => (whole l hl).1
  have texts : (lines.map (·.text)).map (fun line => String.ofList (withoutReturn line.toList)) =
      lines.map (·.text) := by
    rw [List.map_map]
    exact List.map_congr_left fun l hl => by simp [(whole l hl).2]
  rw [Feed.ofText, splitLines_unlines inner, List.map_map, Function.comp_def, texts, numbers]

end Read
end WispSyntax
