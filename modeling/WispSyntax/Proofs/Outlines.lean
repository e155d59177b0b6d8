import WispSyntax.Proofs.Captions
import WispSyntax.Proofs.LineEnds
import WispSyntax.Proofs.Rereading
import WispSyntax.Proofs.Shape

/-!
Outlines of programs. The tree of an accepted text can be found again from its outline, which has a
line for each of its nodes (`outline_lossless`).
-/

namespace WispSyntax

open CommandLine (unlines)

section
variable {lines lines' : List String}

-- Lines without line feeds can be found again in their text.
theorem unlines_injective (inner : ∀ line ∈ lines, '\n' ∉ line.toList)
    (inner' : ∀ line ∈ lines', '\n' ∉ line.toList) (h : unlines lines = unlines lines') :
    lines = lines' := by
  have chars := congrArg String.toList h
  induction lines generalizing lines'
  case nil =>
    cases lines'
    case nil => rfl
    case cons =>
      rw [toList_unlines_cons] at chars
      simp [unlines] at chars
  case cons line lines hi =>
    cases lines'
    case nil =>
      rw [toList_unlines_cons] at chars
      simp [unlines] at chars
    case cons line' lines' =>
      rw [toList_unlines_cons, toList_unlines_cons] at chars
      obtain ⟨here, inner⟩ := List.forall_mem_cons.mp inner
      obtain ⟨here', inner'⟩ := List.forall_mem_cons.mp inner'
      obtain ⟨line_eq, rest⟩ := eq_of_append_cons_eq here here' chars
      rw [String.toList_inj.mp line_eq, hi inner inner' (String.toList_inj.mp rest) rest]

theorem count_unlines (inner : ∀ line ∈ lines, '\n' ∉ line.toList) :
    (unlines lines).toList.count '\n' = lines.length := by
  induction lines
  case nil => rfl
  case cons line lines hi =>
    obtain ⟨here, inner⟩ := List.forall_mem_cons.mp inner
    rw [toList_unlines_cons, List.count_append, List.count_eq_zero.mpr here, List.count_cons_self,
      hi inner, List.length_cons, Nat.zero_add]

theorem getLast?_unlines (ne : lines ≠ []) : (unlines lines).toList.getLast? = some '\n' := by
  induction lines
  case nil => contradiction
  case cons line lines hi =>
    rw [toList_unlines_cons, List.getLast?_append_of_ne_nil _ (List.cons_ne_nil _ _)]
    cases lines
    case nil  => rfl
    case cons line' lines =>
      rw [List.getLast?_cons, hi (List.cons_ne_nil _ _), Option.getD_some]

end

namespace Node

-- What is in a slot of a node.
def occupant (n : Node) : Slot → Option Node
  | .lhs       => n.lhs
  | .rhs       => n.rhs
  | .alt       => n.alt
  | .param i j => n.params[i]?.bind (·[j]?)
  | .child i   => n.children[i]?

theorem mem_slots_iff {n : Node} {s : Slot × Node} : s ∈ n.slots ↔ n.occupant s.1 = some s.2 := by
  obtain ⟨slot, m⟩ := s
  cases slot <;>
    simp [slots, paramSlots, childSlots, occupant, List.mem_zipIdx_iff_getElem?,
      Option.bind_eq_some_iff]

-- A tree that its outline tells: no entry is empty, and no value parts a line or a caption.
def Recoverable (n : Node) : Prop :=
  ∀ m ∈ n.inOrder, [] ∉ m.params ∧ IsQuotable m.value.toList

theorem Recoverable.of_mem_slots {n : Node} {s : Slot × Node} (h : n.Recoverable)
    (hs : s ∈ n.slots) : s.2.Recoverable :=
  fun m hm => h m (mem_inOrder_iff.mpr (.inr ⟨s.2, mem_branches_of_mem_slots hs, hm⟩))

theorem Recoverable.own {n : Node} (h : n.Recoverable) : [] ∉ n.params ∧ IsQuotable n.value.toList :=
  h n (mem_inOrder_iff.mpr (.inl rfl))

theorem Recoverable.backquote_not_mem {n : Node} (h : n.Recoverable) : '`' ∉ n.value.toList :=
  fun mem => (h.own.2 _ mem).1 rfl

theorem Recoverable.feed_not_mem {n : Node} (h : n.Recoverable) : '\n' ∉ n.value.toList :=
  fun mem => (h.own.2 _ mem).2 rfl

theorem isSome_occupant {n : Node} (ne : [] ∉ n.params) (i : Nat) :
    (n.occupant (.param i 0)).isSome = n.params[i]?.isSome := by
  cases entry : n.params[i]?
  case none => simp [occupant, entry]
  case some e =>
    have nonempty : e ≠ [] := fun empty => ne (empty ▸ List.mem_of_getElem? entry)
    obtain ⟨x, e, rfl⟩ := List.exists_cons_of_ne_nil nonempty
    simp [occupant, entry]

-- The slots tell the entries apart, as long as none of them is empty.
theorem params_eq_of_occupant {m n : Node} (ne : [] ∉ m.params) (ne' : [] ∉ n.params)
    (same : ∀ i j, m.occupant (.param i j) = n.occupant (.param i j)) : m.params = n.params := by
  refine List.ext_getElem? fun i => ?_
  have isSome : m.params[i]?.isSome = n.params[i]?.isSome := by
    rw [← isSome_occupant ne, ← isSome_occupant ne', same]
  have same := same i
  simp only [occupant] at same
  cases entry : m.params[i]? <;> cases entry' : n.params[i]? <;> rw [entry, entry'] at same isSome
  case none.some => cases isSome
  case some.none => cases isSome
  case some.some => rw [List.ext_getElem? same]

-- A node is nothing but what its caption and its slots tell.
theorem eq_of_slots_eq {m n : Node} (ne : [] ∉ m.params) (ne' : [] ∉ n.params)
    (own : m.kind = n.kind ∧ m.value = n.value ∧ m.location = n.location)
    (slots_eq : m.slots = n.slots) : m = n := by
  have same (slot : Slot) : m.occupant slot = n.occupant slot :=
    Option.ext fun k => by
      rw [← mem_slots_iff (s := (slot, k)), ← mem_slots_iff (s := (slot, k)), slots_eq]
  have params := params_eq_of_occupant ne ne' fun i j => same (.param i j)
  have children : m.children = n.children := List.ext_getElem? fun i => same (.child i)
  have lhs : m.lhs = n.lhs := same .lhs
  have rhs : m.rhs = n.rhs := same .rhs
  have alt : m.alt = n.alt := same .alt
  obtain ⟨kind, value, location⟩ := own
  cases m
  cases n
  simp_all

-- The lines of the nodes in some slots, and of those below them.
def slotLines (depth : Nat) (slots : List (Slot × Node)) : List String :=
  slots.flatMap fun s => slotLine depth s :: s.2.outlineBelow (depth + 1)

theorem outlineBelow_eq_slotLines (depth : Nat) (n : Node) :
    n.outlineBelow depth = slotLines depth n.slots :=
  outlineBelow_eq depth n

theorem slotLines_cons_append (depth : Nat) (s : Slot × Node) (slots : List (Slot × Node))
    (rest : List String) :
    slotLines depth (s :: slots) ++ rest =
      slotLine depth s :: (s.2.outlineBelow (depth + 1) ++ (slotLines depth slots ++ rest)) := by
  simp [slotLines]

-- The lines, if there are any, go on above the depth.
def GoesUp (depth : Nat) (lines : List String) : Prop :=
  ∀ line ∈ lines.head?, indentation line < 2 * depth

theorem GoesUp.slotLines_append {depth : Nat} {rest : List String} (h : GoesUp depth rest)
    (slots : List (Slot × Node)) : GoesUp (depth + 1) (slotLines depth slots ++ rest) := by
  intro line hl
  cases slots
  case nil => exact Nat.lt_add_right 2 (h line hl)
  case cons s slots =>
    obtain rfl : slotLine depth s = line := Option.some.inj hl
    rw [indentation_slotLine]
    omega

theorem GoesUp.slotLines_ne {depth : Nat} {rest lines : List String} (h : GoesUp depth rest)
    (s : Slot × Node) (slots : List (Slot × Node)) : rest ≠ slotLines depth (s :: slots) ++ lines := by
  rintro rfl
  have lt := h (slotLine depth s) rfl
  rw [indentation_slotLine] at lt
  exact Nat.lt_irrefl _ lt

section
variable {depth : Nat} {rest rest' : List String}

-- The induction is along the slots of one node; what is known of the nodes in them is a hypothesis,
-- since it comes from an induction along the tree.
theorem slots_eq_of_slotLines {slots slots' : List (Slot × Node)}
    (below : ∀ s ∈ slots, ∀ m : Node, m.Recoverable → ∀ rest rest', GoesUp (depth + 1) rest →
      GoesUp (depth + 1) rest' →
      s.2.outlineBelow (depth + 1) ++ rest = m.outlineBelow (depth + 1) ++ rest' →
      s.2.slots = m.slots ∧ rest = rest')
    (known : ∀ s ∈ slots, s.2.Recoverable) (known' : ∀ s ∈ slots', s.2.Recoverable)
    (up : GoesUp depth rest) (up' : GoesUp depth rest')
    (h : slotLines depth slots ++ rest = slotLines depth slots' ++ rest') :
    slots = slots' ∧ rest = rest' := by
  induction slots generalizing slots'
  case nil =>
    cases slots'
    case nil  => exact ⟨rfl, h⟩
    case cons => exact absurd h (up.slotLines_ne _ _)
  case cons s slots hi =>
    cases slots'
    case nil => exact absurd h.symm (up'.slotLines_ne _ _)
    case cons t slots' =>
      obtain ⟨here, known⟩ := List.forall_mem_cons.mp known
      obtain ⟨here', known'⟩ := List.forall_mem_cons.mp known'
      obtain ⟨inner, below⟩ := List.forall_mem_cons.mp below
      rw [slotLines_cons_append, slotLines_cons_append] at h
      obtain ⟨line_eq, h⟩ := List.cons.inj h
      obtain ⟨slot, own⟩ := slotLine_injective here.backquote_not_mem here'.backquote_not_mem line_eq
      obtain ⟨slots_eq, h⟩ := inner t.2 here' _ _ (up.slotLines_append slots)
        (up'.slotLines_append slots') h
      have node : s.2 = t.2 := eq_of_slots_eq here.own.1 here'.own.1 own slots_eq
      obtain ⟨rfl, rfl⟩ := hi below known known' h
      rw [Prod.ext slot node]
      exact ⟨rfl, rfl⟩

-- The lines below a node tell its slots, and where they end.
theorem slots_eq_of_outlineBelow {m n : Node} (hm : m.Recoverable) (hn : n.Recoverable)
    (up : GoesUp depth rest) (up' : GoesUp depth rest')
    (h : m.outlineBelow depth ++ rest = n.outlineBelow depth ++ rest') :
    m.slots = n.slots ∧ rest = rest' := by
  induction m using slots_induction generalizing n depth rest rest'
  case step m hi =>
    rw [outlineBelow_eq_slotLines, outlineBelow_eq_slotLines] at h
    refine slots_eq_of_slotLines ?_ (fun s => hm.of_mem_slots) (fun s => hn.of_mem_slots) up up' h
    intro s hs n hn rest rest' up up' h
    exact hi s hs (hm.of_mem_slots hs) hn up up' h

end

theorem eq_of_outline {m n : Node} (hm : m.Recoverable) (hn : n.Recoverable)
    (h : m.outline = n.outline) : m = n := by
  obtain ⟨line_eq, below⟩ := List.cons.inj h
  have line_eq := congrArg String.toList line_eq
  rw [toList_firstLine, toList_firstLine] at line_eq
  have own := caption_injective hm.backquote_not_mem hn.backquote_not_mem line_eq
  have none : GoesUp 1 [] := by simp [GoesUp]
  obtain ⟨slots_eq, _⟩ := slots_eq_of_outlineBelow hm hn none none (congrArg (· ++ []) below)
  exact eq_of_slots_eq hm.own.1 hn.own.1 own slots_eq

-- An outline has a line for each node.
theorem length_walkFrom (n : Node) (level depth : Nat) :
    (n.walkFrom level).length = (n.outlineBelow depth).length + 1 := by
  induction n using slots_induction generalizing level depth
  case step n hi =>
    rw [walkFrom_eq, outlineBelow_eq, List.length_cons, List.length_flatMap, List.length_flatMap]
    congr 2
    refine List.map_congr_left fun s hs => ?_
    rw [List.length_cons]
    exact hi s hs (level + 1) (depth + 1)

theorem feed_not_mem_of_mem_outlineBelow {n : Node} (h : n.Recoverable) {depth : Nat} :
    ∀ line ∈ n.outlineBelow depth, '\n' ∉ line.toList := by
  induction n using slots_induction generalizing depth
  case step n hi =>
    intro line hl
    rw [outlineBelow_eq_slotLines] at hl
    obtain ⟨s, hs, hl⟩ := List.mem_flatMap.mp hl
    have below := h.of_mem_slots hs
    rcases List.mem_cons.mp hl with rfl | hl
    · exact feed_not_mem_slotLine below.feed_not_mem depth
    · exact hi s hs below line hl

theorem feed_not_mem_of_mem_outline {n : Node} (h : n.Recoverable) :
    ∀ line ∈ n.outline, '\n' ∉ line.toList := by
  refine List.forall_mem_cons.mpr ⟨?_, feed_not_mem_of_mem_outlineBelow h⟩
  rw [toList_firstLine]
  exact feed_not_mem_caption h.feed_not_mem

end Node

theorem isQuotable_of_isPlain {text : List Char} (plain : ∀ c ∈ text, isPlain c) :
    IsQuotable text := by
  intro c hc
  obtain ⟨blank, quote, -⟩ := isPlain_iff.mp (plain c hc)
  refine ⟨by simp [quote], ?_⟩
  rintro rfl
  cases blank

theorem IsName.isQuotable {text : List Char} (h : IsName text) : IsQuotable text := by
  refine isQuotable_of_isPlain fun c hc => ?_
  rcases h with ⟨_, letters, _⟩ | ⟨_, wordChars, _⟩
  · exact isPlain_of_isLetter (letters c hc)
  · exact isPlain_of_isWordChar (wordChars c hc)

theorem IsNumber.isQuotable {form : NumberForm} {text : List Char} (h : IsNumber form text) :
    IsQuotable text := by
  refine isQuotable_of_isPlain fun c hc => ?_
  rcases h.isWordChar c hc with wordChar | rfl
  · exact isPlain_of_isWordChar wordChar
  · rfl

namespace Node

-- The parser builds no empty entries, and keeps to what a lexeme can hold.
theorem WellFormed.tells {n : Node} {nested : Bool} (h : n.WellFormed nested) :
    [] ∉ n.params ∧ IsQuotable n.value.toList := by
  have nothing : IsQuotable "".toList := List.forall_mem_nil _
  cases h
  case number isNumber   => exact ⟨List.not_mem_nil, isNumber.isQuotable⟩
  case string isQuotable => exact ⟨List.not_mem_nil, isQuotable⟩
  case identifier isName => exact ⟨List.not_mem_nil, isName.isQuotable⟩
  case group entries _   => exact ⟨fun mem => (entries [] mem).1 rfl, nothing⟩
  case call isWord entries _ =>
    exact ⟨fun mem => (entries [] mem).1 rfl, IsName.isQuotable (.inl isWord)⟩
  case function isName parameters _ _ =>
    refine ⟨fun mem => ?_, isName.isQuotable⟩
    obtain ⟨_, _, empty, _⟩ := parameters [] mem
    cases empty
  all_goals exact ⟨List.not_mem_nil, nothing⟩

theorem IsProgram.recoverable {root : Node} (h : root.IsProgram) : root.Recoverable := by
  intro m hm
  rw [h.inOrder_eq] at hm
  rcases List.mem_cons.mp hm with rfl | hm
  · rw [h.1]
    exact ⟨List.not_mem_nil, List.forall_mem_nil _⟩
  · obtain ⟨child, hc, hm⟩ := List.mem_flatMap.mp hm
    obtain ⟨_, wellFormed⟩ := (h.2 child hc).of_mem_inOrder hm
    exact wellFormed.tells

end Node

namespace Parser

-- Accepted texts with the same outline have the same tree, and an outline has a line for each node.
theorem outline_lossless {text text' : String} {root root' : Node} (h : parse text = .ok root)
    (h' : parse text' = .ok root') :
    (root.outlineText = root'.outlineText → root = root') ∧
    root.outlineText.toList.count '\n' = root.walk.length ∧
    root.outlineText.toList.getLast? = some '\n' := by
  have recoverable := (isProgram_of_parse h).recoverable
  have recoverable' := (isProgram_of_parse h').recoverable
  have inner := Node.feed_not_mem_of_mem_outline recoverable
  refine ⟨fun same => ?_, ?_, getLast?_unlines (List.cons_ne_nil _ _)⟩
  · have inner' := Node.feed_not_mem_of_mem_outline recoverable'
    exact Node.eq_of_outline recoverable recoverable' (unlines_injective inner inner' same)
  · rw [Node.walk, root.length_walkFrom 0 1]
    exact count_unlines inner

theorem outline_lossless_quotes :
    ∃ root root', parse "f('a`, (b))" = .ok root ∧ parse "f(\"a\", (b))" = .ok root' ∧
    (root.outlineText = root'.outlineText → root = root') ∧
    root.outlineText.toList.count '\n' = root.walk.length ∧
    root.outlineText.toList.getLast? = some '\n' := by
  let group : Node :=
    { kind := .group, params := [[.leaf .identifier "b" ⟨1, 9⟩]], location := ⟨1, 8⟩ }
  let call : Node :=
    { kind := .call, value := "f", params := [[.leaf .string "a" ⟨1, 3⟩], [group]],
      location := ⟨1, 1⟩ }
  have h : parse "f('a`, (b))" =
      .ok { kind := .root, children := [call], location := ⟨1, 1⟩ } := rfl
  have h' : parse "f(\"a\", (b))" =
      .ok { kind := .root, children := [call], location := ⟨1, 1⟩ } := rfl
  exact ⟨_, _, h, h', outline_lossless h h'⟩

end Parser
end WispSyntax
