import LiveTree.Proofs.Parser.Run
import LiveTree.Proofs.Syntax.Codec
import LiveTree.Proofs.Syntax.Node
import LiveTree.Web.Server

namespace LiveTree.Syntax

open Association (find?)

namespace Branch

theorem isReadable_toJson (branch : Branch Node) : IsReadable branch.toJson :=
  ⟨_, rfl, .inr ⟨_, rfl⟩⟩

theorem ofJson_toJson (branch : Branch Node) :
    ofJson branch.toJson = ⟨branch.reqs,
      branch.entries.map fun slot => slot.map fun node => Node.ofJson node.toJson⟩ := by
  have hslots : slots branch.toJson =
      branch.entries.map fun slot => .list (slot.map Node.toJson) := rfl
  have hreqs : (ofJson branch.toJson).reqs = branch.reqs := rfl
  have hentries : (ofJson branch.toJson).entries =
      branch.entries.map fun slot => slot.map fun node => Node.ofJson node.toJson := by
    change (slots branch.toJson).map Node.ofSlot = _
    rw [hslots, List.map_map]
    apply List.map_congr_left
    intro slot _
    exact List.map_map
  rw [← hreqs, ← hentries]

end Branch

namespace Node

/-- Reading what was written for a rule reads what was written for each node right below it. -/
theorem ofJson_toJson_rule (symbol : Text) (branches : Branches) :
    ofJson (toJson (.rule symbol branches)) = .rule symbol (branches.map fun b =>
      (b.1, ⟨b.2.reqs, b.2.entries.map fun slot => slot.map fun node => ofJson node.toJson⟩)) := by
  have hreadable : ∀ b ∈ branches.map fun b => (b.1, b.2.toJson), Branch.IsReadable b.2 := by
    intro b hb
    obtain ⟨b, -, rfl⟩ := List.mem_map.mp hb
    exact b.2.isReadable_toJson
  rw [toJson_rule, ofJson_rule (by rfl) (by rfl) (by rfl) hreadable, List.map_map]
  congr 1
  apply List.map_congr_left
  intro b _
  exact congrArg (Prod.mk b.1) b.2.ofJson_toJson

theorem ofJson_toJson_token (symbol value : Text) :
    ofJson (toJson (.token symbol value)) = .token symbol value :=
  ofJson_token (by rfl) (by rfl) (by rfl)

theorem map_eq_self_iff {α : Type} {f : α → α} {l : List α} :
    l.map f = l ↔ ∀ a ∈ l, f a = a := by
  simpa using List.map_inj_left (l := l) (f := f) (g := id)

theorem rule_round_trip_iff {symbol : Text} {branches : Branches} :
    ofJson (toJson (.rule symbol branches)) = .rule symbol branches ↔
      ∀ child ∈ children (.rule symbol branches), ofJson child.toJson = child := by
  have hbranch : ∀ b : Text × Branch Node,
      (b.1, (⟨b.2.reqs, b.2.entries.map fun slot => slot.map fun node => ofJson node.toJson⟩ :
        Branch Node)) = b ↔ ∀ slot ∈ b.2.entries, ∀ node ∈ slot, ofJson node.toJson = node := by
    rintro ⟨key, ⟨reqs, entries⟩⟩
    simp only [Prod.mk.injEq, Branch.mk.injEq, true_and, map_eq_self_iff]
  rw [ofJson_toJson_rule, rule.injEq, and_iff_right rfl, map_eq_self_iff]
  simp only [hbranch, mem_children_rule]
  constructor
  · rintro h child ⟨b, hb, slot, hslot, hchild⟩
    exact h b hb slot hslot child hchild
  · intro h b hb slot hslot node hnode
    exact h node ⟨b, hb, slot, hslot, hnode⟩

/-- What is written for a node is read as that node unless a malformed node in it holds a value
that is none. -/
theorem round_trip_iff (node : Node) :
    ofJson node.toJson = node ↔
      ∀ raw, .malformed raw ∈ node.nodes → ∃ other, ofJson raw = .malformed other := by
  induction node using induction_children with
  | step node ih =>
    cases node with
    | token symbol value =>
      have hread := ofJson_toJson_token symbol value
      simp [hread, nodes]
    | self name =>
      have hread : ofJson (toJson (.self name)) = .self name := rfl
      simp [hread, nodes]
    | malformed raw =>
      simp only [nodes, List.mem_singleton, malformed.injEq, forall_eq, toJson]
      constructor
      · exact fun h => ⟨raw, h⟩
      · rintro ⟨other, h⟩
        rw [h, raw_eq_of_ofJson h]
    | rule symbol branches =>
      rw [rule_round_trip_iff]
      constructor
      · intro h raw hraw
        obtain hroot | ⟨child, hchild, hmem⟩ := mem_nodes.mp hraw
        · cases hroot
        · exact (ih child hchild).mp (h child hchild) raw hmem
      · intro h child hchild
        refine (ih child hchild).mpr fun raw hraw => ?_
        exact h raw (mem_nodes.mpr (.inr ⟨child, hchild, hraw⟩))

/-- An entry that should be a list of nodes but is a node itself. -/
def IsBareNode (slot : Json) : Prop :=
  (∀ nodes, slot ≠ .list nodes) ∧ ∀ raw, ofJson slot ≠ .malformed raw

/-- No branch of a value, however far within, has such an entry. -/
def NoBareNode (value : Json) : Prop :=
  ∀ reached branch, Reaches value reached → HasBranch reached branch →
    ∀ slot ∈ Branch.slots branch, ¬IsBareNode slot

theorem noBareNode_of_within {value : Json}
    (own : ∀ branch, HasBranch value branch → ∀ slot ∈ Branch.slots branch, ¬IsBareNode slot)
    (below : ∀ branch, HasBranch value branch → ∀ nodes, .list nodes ∈ Branch.slots branch →
      ∀ node ∈ nodes, NoBareNode node) : NoBareNode value := by
  intro reached branch h has
  cases h with
  | self => exact own branch has
  | within has' slot_mem node_mem reaches =>
    exact below _ has' _ slot_mem _ node_mem reached branch reaches has

theorem malformed_of_not_isBareNode {slot : Json} (hlist : ∀ nodes, slot ≠ .list nodes)
    (h : ¬IsBareNode slot) : ∃ raw, ofJson slot = .malformed raw :=
  Classical.byContradiction fun hnone => h ⟨hlist, fun raw hraw => hnone ⟨raw, hraw⟩⟩

theorem mem_children_ofJson {value : Json} {child : Node} (h : child ∈ (ofJson value).children) :
    ∃ branch, HasBranch value branch ∧ ∃ slot ∈ Branch.slots branch, child ∈ ofSlot slot := by
  have hreading := reading value
  generalize hnode : ofJson value = node at h hreading
  cases hreading with
  | rule symbol_eq value_eq branches_eq readable =>
    obtain ⟨b, hb, slot, hslot, hchild⟩ := mem_children_rule.mp h
    obtain ⟨b, hmem, rfl⟩ := List.mem_map.mp hb
    obtain ⟨slot, hread, rfl⟩ := List.mem_map.mp hslot
    exact ⟨b.2, .of_rule hnode branches_eq hmem, slot, hread, hchild⟩
  | _ => exact absurd h List.not_mem_nil

theorem malformed_of_mem_nodes (value : Json) (hbare : NoBareNode value)
    {raw : Json} (hraw : .malformed raw ∈ (ofJson value).nodes) :
    ∃ other, ofJson raw = .malformed other := by
  induction value using induction_read with
  | step value ih =>
    obtain hroot | ⟨child, hchild, hmem⟩ := mem_nodes.mp hraw
    · have hvalue : raw = value := raw_eq_of_ofJson hroot.symm
      exact ⟨raw, hvalue ▸ hroot.symm⟩
    · obtain ⟨branch, hbranch, slot, hslot, hin⟩ := mem_children_ofJson hchild
      cases slot with
      | list nodes =>
        obtain ⟨node, hnode, rfl⟩ := List.mem_map.mp hin
        refine ih branch hbranch nodes hslot node hnode (fun reached branch' hreached => ?_) hmem
        exact hbare reached branch' (.within hbranch hslot hnode hreached)
      | _ =>
        -- The slot is kept as a malformed node, and by assumption it would be read as one too.
        obtain rfl := List.mem_singleton.mp hin
        obtain rfl := malformed.inj (List.mem_singleton.mp hmem)
        exact malformed_of_not_isBareNode nofun (hbare value branch (.self value) hbranch _ hslot)

theorem answer_parse {site : Site} {launch : Parser.Request → Parser.Launch}
    {request : Web.Request} {file : Text} {node : Node}
    (route : Web.Route.ofPath request.path = .parse file)
    (parsed : (site.parseFile launch file request.query).result = .ok (some node)) :
    (site.reply launch request).answer = .json node.toJson := by
  simp only [Site.reply, route, Site.treeReply, parsed]

theorem answer_tree {site : Site} {launch : Parser.Request → Parser.Launch}
    {request : Web.Request} {file : Text} {node : Node}
    (route : Web.Route.ofPath request.path = .tree file)
    (parsed : (site.parseFile launch file request.query).result = .ok (some node)) :
    (site.reply launch request).answer = .json (Display.ofSyntax none node).toJson := by
  simp only [Site.reply, route, Site.treeReply, parsed]

/-- Writing a node and reading it again gives the node exactly if its malformed nodes hold values
that are read as malformed. So drawing the answer to a request for the syntax tree of a value gives
the answer to a request for its drawn tree, if no entry of the value is a node where there should be
a list of nodes. -/
theorem reread_and_redrawn :
    (∀ node : Node, ofJson node.toJson = node ↔
      ∀ raw, .malformed raw ∈ node.nodes → ∃ other, ofJson raw = .malformed other) ∧
    ∀ value : Json, NoBareNode value →
      Display.ofSyntax none (ofJson (ofJson value).toJson) = Display.ofSyntax none (ofJson value) ∧
      ∀ (site : Site) (launch launch' : Parser.Request → Parser.Launch)
        (request request' : Web.Request) (file file' : Text),
        Web.Route.ofPath request.path = .parse file →
        Web.Route.ofPath request'.path = .tree file' →
        (site.parseFile launch file request.query).result = .ok (some (ofJson value)) →
        (site.parseFile launch' file' request'.query).result = .ok (some (ofJson value)) →
        ∃ body, (site.reply launch request).answer = .json body ∧
          (site.reply launch' request').answer =
            .json (Display.ofSyntax none (ofJson body)).toJson := by
  refine ⟨round_trip_iff, fun value hbare => ?_⟩
  have hread : ofJson (ofJson value).toJson = ofJson value :=
    (round_trip_iff _).mpr fun raw hraw => malformed_of_mem_nodes value hbare hraw
  refine ⟨by rw [hread], ?_⟩
  intro site launch launch' request request' file file' hroute hroute' hparsed hparsed'
  refine ⟨(ofJson value).toJson, answer_parse hroute hparsed, ?_⟩
  rw [hread]
  exact answer_tree hroute' hparsed'

/-- A rule with one branch of the given entries. -/
def ruleOf (entries : List Json) : Json :=
  .object [("symbol", .text "x"), ("branches", .object [("1", .object
    [("reqs", .text "y"), ("entries", .list entries)])])]

theorem hasBranch_ruleOf {entries : List Json} {branch : Json}
    (h : HasBranch (ruleOf entries) branch) : Branch.slots branch = entries := by
  cases h with
  | of_rule read found mem =>
    obtain rfl := Json.object.inj (Option.some.inj found)
    obtain rfl := List.mem_singleton.mp mem
    rfl

/-- A site of one file. -/
def quietSite : Site where
  options := { lua := "lua", main := "main.lua" }
  assets := []
  disk := { tree := .folder [("a", .file (.ok []))], workdir := "/" }

/-- Starts a parser that prints a seven. -/
def printing (_ : Parser.Request) : Parser.Launch := .started { stdout := [[0x37]] }

theorem parseFile_printing :
    (quietSite.parseFile printing "a" []).result = .ok (some (ofJson (.int 7))) := by
  have hsource : quietSite.source? "a" = some ("/a" : Text) := by decide +kernel
  have hline : Parser.lastLine [0x37] = some ("7" : Text) := by decide +kernel
  obtain ⟨r, hprogram, hworkdir, htimeout, hrequest, hprocess⟩ :=
    Parser.Completed.exists_of quietSite.program "/"
      (show Option.map Utf8.encode? (Parser.Request.input? { path := some "/a" }) = none.map some
        from rfl) (show ¬(5 : Float) ≤ 0 by decide +kernel)
      (show Parser.Process.runsOut { stdout := [[0x37]] } 5 = false by decide +kernel) (by decide)
  have hresult : r.report.result = .ok (.tree (ofJson (.int 7))) := by
    rw [r.report_eq.1, r.result_eq, hprocess, List.flatten_singleton, hline]
    rfl
  have hparse : quietSite.parse printing { path := some "/a" } = r.report := by
    rw [Parser.Completed.report, hprogram, hworkdir, htimeout, hrequest, hprocess]
    rfl
  have hentry : quietSite.options.entry = none := rfl
  rw [Site.parseFile, hsource]
  simp only [List.isEmpty_nil, if_true, hentry, hparse, hresult]

/-- An entry that is a number is read again, one that is a token is not. -/
theorem reread_number_not_token :
    let value := ruleOf [.int 7, .list [.text "y"]]
    let token : Json := .object [("symbol", .text "A"), ("value", .text "a")]
    NoBareNode value ∧
      Display.ofSyntax none (ofJson (ofJson value).toJson) = Display.ofSyntax none (ofJson value) ∧
      (∃ body, (quietSite.reply printing ⟨"/parse/a", []⟩).answer = .json body ∧
        (quietSite.reply printing ⟨"/tree/a", []⟩).answer =
          .json (Display.ofSyntax none (ofJson body)).toJson) ∧
      ofJson (ofJson (ruleOf [token])).toJson ≠ ofJson (ruleOf [token]) := by
  intro value token
  have hname : NoBareNode (.text "y") := noBareNode_of_within nofun nofun
  have hseven : NoBareNode (.int 7) := noBareNode_of_within nofun nofun
  have hbare : NoBareNode value := by
    refine noBareNode_of_within (fun branch has slot hslot hnode => ?_) ?_
    · rw [hasBranch_ruleOf has] at hslot
      simp only [List.mem_cons, List.not_mem_nil, or_false] at hslot
      rcases hslot with rfl | rfl
      · exact hnode.2 _ rfl
      · exact hnode.1 _ rfl
    · intro branch has nodes hslot node hnode
      rw [hasBranch_ruleOf has] at hslot
      simp only [List.mem_cons, reduceCtorEq, Json.list.injEq, List.not_mem_nil, or_false,
        false_or] at hslot
      rw [hslot, List.mem_singleton] at hnode
      rw [hnode]
      exact hname
  obtain ⟨-, hreplies⟩ := reread_and_redrawn.2 (.int 7) hseven
  refine ⟨hbare, (reread_and_redrawn.2 value hbare).1, ?_, fun h => ?_⟩
  · exact hreplies quietSite printing printing _ _ "a" "a" (by decide +kernel) (by decide +kernel)
      parseFile_printing parseFile_printing
  obtain ⟨other, hother⟩ := (reread_and_redrawn.1 _).mp h token (by
    rw [mem_nodes]
    exact .inr ⟨.malformed token, List.mem_singleton.mpr rfl, self_mem_nodes _⟩)
  cases hother

end Node

end LiveTree.Syntax
