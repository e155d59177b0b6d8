import WispSyntax.Proofs.Enclosing

/-!
Parsing undoes printing. Every list of well-formed trees is printed, in every layout, as a program
whose tree has these trees below its root, up to their places (`parse_print`).
-/

namespace WispSyntax

namespace Family
variable {family : Family} {k : Kind}

theorem BindsLeft.accepts (h : family.BindsLeft k) : family.acceptsLeft k := by
  cases family
  case math =>
    rcases h with value | ⟨op, rfl⟩
    · simp [acceptsLeft, value]
    · cases op <;> rfl
  case negation => exact h.elim
  all_goals simpa [acceptsLeft, BindsLeft, or_assoc] using h

theorem BindsRight.isValue_or_isBoolean (h : family.BindsRight k) : k.isValue ∨ k.isBoolean := by
  cases family
  case math     => exact .inl h
  case negation => exact .inr h
  case typing =>
    cases h
    exact .inl rfl
  all_goals exact h

theorem BindsRight.accepts (h : family.BindsRight k) : family.acceptsRight k := by
  cases family
  case relation =>
    have accepts : k.isValue ∨ k.isBoolean := h
    rcases accepts with accepts | accepts <;> simp [acceptsRight, accepts]
  all_goals simpa [acceptsRight, BindsRight] using h

-- Only comparisons and assignments take a type query on their left.
theorem BindsLeft.eq_relation (h : family.BindsLeft .typeOf) : family = .relation := by
  cases family
  case relation => rfl
  case math =>
    rcases h with value | ⟨op, eq⟩
    · contradiction
    · cases op <;> contradiction
  all_goals simp [BindsLeft, Kind.isValue, Kind.isNumeric, Kind.isBoolean] at h

end Family

theorem Node.WellFormed.lhs_eq_none {n : Node} {nested : Bool} (h : n.WellFormed nested)
    (operand : n.kind.isValue ∨ n.kind.isBoolean) : n.lhs = none := by
  cases h
  case operator op _ _ _ _ _ =>
    rcases op with ⟨⟨⟩⟩ | ⟨⟨⟩⟩ | _ | _ | _ <;> rcases operand with h | h <;> contradiction
  case query => rcases operand with h | h <;> contradiction
  case counter c _ _ _ => cases c <;> rcases operand with h | h <;> contradiction
  all_goals rfl

namespace Parser

theorem rebuilds {layout : Layout} {nested : Bool} {n : Node} (h : n.WellFormed nested) :
    State.Rebuilds layout nested n := by
  induction h
  case constant c =>
    exact State.rebuilds_leaf (by cases c <;> exact nofun) (Node.items_constant layout c) rfl rfl
  case number form _ _ _ =>
    refine State.rebuilds_leaf ?_ (Node.items_number layout form) rfl rfl
    rcases form with _ | _ | ⟨⟨⟩⟩ <;> exact nofun
  case string => exact State.rebuilds_leaf nofun (Node.items_string layout) rfl rfl
  case identifier => exact State.rebuilds_leaf nofun (Node.items_identifier layout) rfl rfl
  case operator op ne bindsLeft bindsRight left right hl hr =>
    have operand := bindsRight.isValue_or_isBoolean
    refine State.rebuilds_between ne bindsLeft.accepts bindsRight.accepts ?_
      (right.lhs_eq_none operand) ?_ hl hr
    · intro isQuery
      rw [isQuery] at bindsLeft
      have family_eq := bindsLeft.eq_relation
      cases op <;> first | rfl | contradiction
    · intro isQuery
      rw [isQuery] at operand
      rcases operand with h | h <;> contradiction
  case negation isBoolean right hr =>
    exact State.rebuilds_negation isBoolean (right.lhs_eq_none (.inr isBoolean)) hr
  case query isIdentifier _ hl => exact State.rebuilds_query isIdentifier hl
  case counter c bindsLeft ne _ hl =>
    refine State.rebuilds_counter c bindsLeft.accepts ne ?_ hl
    intro isQuery
    rw [isQuery] at bindsLeft
    have family_eq := bindsLeft.eq_relation
    contradiction
  case group entries _ hn => exact State.rebuilds_group entries hn
  case call entries _ hn => exact State.rebuilds_call entries hn
  case block hn => exact State.rebuilds_block hn
  case function isParameter names _ _ hn =>
    exact State.rebuilds_function isParameter names hn

theorem parse_print (layout : Layout) (trees : List Node) (h : ∀ n ∈ trees, n.WellFormed false) :
    ∃ root, parse (layout.print trees) = .ok root ∧
      root.bare = { kind := .root, children := trees.map Node.bare } := by
  let body (c : Sequence) : State := ⟨.anything, [], c⟩
  have room : State.Room body := ⟨fun _ => rfl, fun _ => trivial, fun _ _ => rfl, fun _ _ => rfl⟩
  have outside (c) (n : Node) : State.Suits false n (body c).stack :=
    ⟨fun _ => trivial, by simp [body], fun _ => rfl⟩
  have leads : (body {}).Leads (Node.itemsLines layout trees ++ []) fun s =>
      s.unclosed = none ∧ s.root.bare = { kind := .root, children := trees.map Node.bare } := by
    refine State.leads_lines room (fun c n _ => outside c n) (fun n hn => rebuilds (h n hn)) ?_
    intro c hc
    have children_eq : c.toList.map Node.bare = trees.map Node.bare := hc
    refine ⟨rfl, ?_⟩
    simp only [State.root, body, Node.bare_eq, children_eq]
    rfl
  rw [List.append_nil, ← layout.items_of_print h] at leads
  obtain ⟨s, read, closed, root_eq⟩ := State.readLines_of_leads leads
  exact ⟨s.root, parse_eq_ok_iff.mpr ⟨s, read, closed, rfl⟩, root_eq⟩

theorem parse_print_declaration :
    let name : Node := .leaf .identifier "a" {}
    let type : Node := .leaf .identifier "int" {}
    let query : Node := .between .equal (.after .typeOf name {}) type {}
    let f : Node := { kind := .function, value := "f", params := [[name, type]], children := [query] }
    (∀ n ∈ [f], n.WellFormed false) ∧
    ∃ root, parse "fn f ( a int ) \x7b\na :: == int\n\x7d\n" = .ok root ∧
      root.bare = { kind := .root, children := [f] } := by
  intro name type query f
  have a_isWord : IsWord "a".toList := by simp [IsWord, isLetter_of_isAlpha, isReserved]
  have int_isWord : IsWord "int".toList := by simp [IsWord, isLetter_of_isAlpha, isReserved]
  have f_isWord : IsWord "f".toList := by simp [IsWord, isLetter_of_isAlpha, isReserved]
  have name_ok : name.WellFormed true := .identifier (.inl a_isWord)
  have type_ok : type.WellFormed true := .identifier (.inl int_isWord)
  have query_ok : query.WellFormed true :=
    .operator (.relation .equal) (by simp) (.inr (.inr (.inl rfl))) (.inl rfl)
      (.query rfl name_ok) type_ok
  have f_ok : ∀ n ∈ [f], n.WellFormed false := by
    simp only [List.forall_mem_singleton]
    refine .function (.inl f_isWord) ?_ ?_ ?_
    · simp only [List.forall_mem_singleton]
      exact ⟨name, type, rfl, rfl, rfl⟩
    · simp [name_ok, type_ok]
    · simp [query_ok]
  have text_eq : Layout.standard.print [f] = "fn f ( a int ) \x7b\na :: == int\n\x7d\n" := by
    decide +kernel
  have parsed := parse_print .standard [f] f_ok
  rw [text_eq] at parsed
  exact ⟨f_ok, parsed⟩

end Parser
end WispSyntax
