import SchemaForest.Proofs.Enclosing

/-!
# Views of the same declarations

A view shows declarations and the names of declarations, and no handles.  So two tables show the same
if they hold the same declarations, up to the handles in references (`Table.Redirects`), wherever the
declarations stand.

The crux is which handles are closed (`Table.nodeView_redirect`).  The view of a node hangs on that
only as far as references lead from the node, so it is enough that there the closed handles of the one
table are redirected to those of the other.  The proof is by induction on how many handles are closed,
because a reference shows its declaration with one handle less, and inside on the node.
-/

namespace SchemaForest

open Relation

/-- The label with the handle in its reference replaced. -/
def Label.redirect (ρ : Handle → Handle) (a : Label) : Label :=
  match a.kind with
  | .reference h => { a with kind := .reference (ρ h) }
  | _ => a

namespace Label

variable {ρ : Handle → Handle} {a : Label}

theorem redirect_of_reference {h : Handle} (hkind : a.kind = .reference h) :
    a.redirect ρ = { a with kind := .reference (ρ h) } := by
  rw [redirect, hkind]

theorem redirect_of_ne_reference (hkind : ∀ h, a.kind ≠ .reference h) : a.redirect ρ = a := by
  rw [redirect]
  split
  · rename_i h heq
    exact absurd heq (hkind h)
  · rfl

theorem redirect_id : a.redirect id = a := by
  by_cases href : ∃ h, a.kind = .reference h
  · obtain ⟨h, hkind⟩ := href
    rw [redirect_of_reference hkind, id, ← hkind]
  · exact redirect_of_ne_reference (not_exists.1 href)

/-- Redirecting changes the kind of a label and nothing else. -/
theorem name_redirect (ρ : Handle → Handle) (a : Label) : (a.redirect ρ).name = a.name := by
  rw [redirect]
  split <;> rfl

/-- The object of a label does not show the handle. -/
theorem object_redirect (ρ : Handle → Handle) (a : Label) (options : ViewOptions)
    (target : Option String) (children : List Json) :
    (a.redirect ρ).object options target children = a.object options target children := by
  obtain ⟨name, kind, range, comment, annotations⟩ := a
  cases kind <;> rfl

end Label

namespace Table

variable {t t' : Table} {options : ViewOptions} {ρ : Handle → Handle}

/-! ## Where references lead -/

/-- References lead from the node to the declaration, maybe over others. -/
def Leads (t : Table) (n : Node) (k : Handle) : Prop :=
  ∃ m ∈ n.flatten, ∃ h, m.label.kind = .reference h ∧ ReflTransGen t.Refers h k

theorem leads_target {n : Node} {h : Handle} (hkind : n.label.kind = .reference h) : t.Leads n h :=
  ⟨n, n.mem_flatten_self, h, hkind, .refl⟩

/-- Where a reference leads, there leads what is in its declaration. -/
theorem Leads.of_reference {n d : Node} {h k : Handle} (hkind : n.label.kind = .reference h)
    (hd : t.get? h = some d) (hk : t.Leads d k) : t.Leads n k := by
  obtain ⟨m, hm, j, hj, hchain⟩ := hk
  exact ⟨n, n.mem_flatten_self, h, hkind, hchain.head ⟨d, hd, m, hm, hj⟩⟩

theorem Leads.of_child {n c : Node} {k : Handle} (hc : c ∈ n.children) (hk : t.Leads c k) :
    t.Leads n k := by
  obtain ⟨m, hm, j, hj, hchain⟩ := hk
  exact ⟨m, Tree.mem_flatten_of_child hc hm, j, hj, hchain⟩

/-- References lead to declarations of the table. -/
theorem Leads.mem_handles (ht : t.Shaped) {n : Node} (hn : ∀ m ∈ n.flatten, m ∈ t.nodes) {k : Handle}
    (hk : t.Leads n k) : k ∈ t.handles := by
  obtain ⟨m, hm, h, hkind, hchain⟩ := hk
  induction hchain with
  | refl => exact mem_handles_iff.2 (ht.linked m (hn m hm) h hkind)
  | tail _ hstep _ =>
    obtain ⟨d, hd, m', hm', hkind'⟩ := hstep
    exact mem_handles_iff.2 (ht.linked m' (mem_nodes_of_get? hd hm') _ hkind')

/-! ## Redirections -/

/-- The declarations of a table stand in another one, too, in other places maybe, and references
    there hold the handles of these. -/
structure Redirects (t : Table) (ρ : Handle → Handle) (t' : Table) : Prop where
  get? : ∀ h d, t.get? h = some d → t'.get? (ρ h) = some (d.mapLabels (Label.redirect ρ))
  injOn : ∀ h ∈ t.handles, ∀ k ∈ t.handles, ρ h = ρ k → h = k

theorem redirects_id (t : Table) : t.Redirects id t := by
  refine ⟨fun h d hd => ?_, fun h _ k _ heq => heq⟩
  have hid : Label.redirect id = id := funext fun a => Label.redirect_id
  rw [hid, Tree.mapLabels_id]
  exact hd

/-- A node shows the same with redirected handles, if the handles to which references lead from it
    are closed in the one table exactly if they are closed in the other. -/
theorem nodeView_redirect (ht : t.Shaped) (hρ : t.Redirects ρ t') {closed closed' : List Handle}
    (hnodup : closed.Nodup) (hnodup' : closed'.Nodup) {n : Node} (hn : ∀ m ∈ n.flatten, m ∈ t.nodes)
    (h : ∀ k, t.Leads n k → (k ∈ closed ↔ ρ k ∈ closed')) :
    t'.nodeView options closed' (n.mapLabels (Label.redirect ρ)) =
      t.nodeView options closed n := by
  induction hlength : closed.length using Nat.strongRecOn generalizing closed closed' n with
  | ind length ihlength =>
    induction n using Tree.induction with
    | node a cs ih =>
      by_cases href : ∃ k, (Tree.node a cs).label.kind = .reference k
      · -- The declaration is shown with one handle less, in both views.
        obtain ⟨k, hkind⟩ := href
        have hleads := leads_target (t := t) hkind
        obtain ⟨d, hd⟩ := ht.linked _ (hn _ (Tree.mem_flatten_self _)) k hkind
        have hkind' : ((Tree.node a cs).mapLabels (Label.redirect ρ)).label.kind =
            .reference (ρ k) := by
          rw [Tree.label_mapLabels, Label.redirect_of_reference hkind]
        rw [nodeView_reference hkind hd, nodeView_reference hkind' (hρ.get? k d hd),
          Tree.label_mapLabels, Tree.label_mapLabels, Label.name_redirect, Label.object_redirect]
        by_cases hclosed : k ∈ closed
        · have hsame : t'.nodeView options (closed'.erase (ρ k)) (d.mapLabels (Label.redirect ρ)) =
              t.nodeView options (closed.erase k) d := by
            refine ihlength _ ?_ (hnodup.erase k) (hnodup'.erase (ρ k))
              (fun m hm => mem_nodes_of_get? hd hm) (fun j hj => ?_) rfl
            · rw [← hlength, List.length_erase_of_mem hclosed]
              exact Nat.sub_lt (List.length_pos_of_mem hclosed) Nat.one_pos
            · have hj := hj.of_reference hkind hd
              have hne : j ≠ k ↔ ρ j ≠ ρ k := by
                refine not_congr ⟨congrArg ρ, fun heq => ?_⟩
                exact hρ.injOn j (hj.mem_handles ht hn) k (hleads.mem_handles ht hn) heq
              rw [hnodup.mem_erase_iff, hnodup'.mem_erase_iff, h j hj, hne]
          rw [if_pos hclosed, if_pos ((h k hleads).1 hclosed), hsame]
        · rw [if_neg hclosed, if_neg fun hclosed' => hclosed ((h k hleads).2 hclosed')]
      · have hkind : ∀ k, (Tree.node a cs).label.kind ≠ .reference k := not_exists.1 href
        have hsame : a.redirect ρ = a := Label.redirect_of_ne_reference hkind
        have hkind' : ∀ k, ((Tree.node a cs).mapLabels (Label.redirect ρ)).label.kind ≠
            .reference k := by
          rw [Tree.mapLabels_node, hsame]
          exact hkind
        rw [nodeView_inner hkind, nodeView_inner hkind', Tree.mapLabels_node, hsame,
          Tree.label_node, Tree.label_node, Tree.children_node, Tree.children_node,
          Forest.mapLabels_eq, List.map_map]
        refine congrArg _ (List.map_congr_left fun c hc => ?_)
        refine ih c hc (fun m hm => ?_) fun k hk => ?_
        · exact hn m (Tree.mem_flatten_of_child hc hm)
        · exact h k (hk.of_child hc)

end Table

end SchemaForest
