import DataCatalog.Proofs.Catalog.Shape
/-!
# Paths and descent

A node's path is its parent's path followed by its own id and a slash, and ids hold no
slash. So in a tree-shaped catalog a node is fixed by its path, the subtree that deletions cut
by path prefix is exactly the node with its descendants by parent links, and a member of a
subtree other than its root lies below exactly one child of the root.
-/

namespace DataCatalog.Catalog

open DataCatalog.Ident

/-! ## Slash-free segments -/

section Segments

variable {x x' y b b' p n : List Char}

/-- A prefix of `x ++ ['/']` that ends in a slash is all of it, when `x` has no slash. -/
theorem eq_of_prefix_slash (hx : '/' ∉ x) (h : y ++ ['/'] <+: x ++ ['/']) : y = x := by
  rcases List.prefix_concat_iff.1 h with h | h
  · exact List.append_cancel_right h
  · exact absurd (h.subset (by simp)) hx

/-- The segment after the last slash is determined by the whole. -/
theorem eq_of_append_slash (hx : '/' ∉ x) (hx' : '/' ∉ x') (h : b ++ '/' :: x = b' ++ '/' :: x') :
    x = x' := by
  rcases List.append_eq_append_iff.1 h with ⟨as, -, has⟩ | ⟨bs, -, hbs⟩
  · cases as with
    | nil => simpa using has
    | cons a as => exact absurd (by simp [List.cons_eq_cons.1 has |>.2]) hx
  · cases bs with
    | nil => simpa using hbs.symm
    | cons a bs => exact absurd (by simp [List.cons_eq_cons.1 hbs |>.2]) hx'

/-- A prefix of `p ++ x ++ ['/']` ending in a slash stops within `p` or takes all of it. -/
theorem prefix_slash_cases (hx : '/' ∉ x) (hn : n <+: p ++ (x ++ ['/']))
    (hend : ∃ b, n = b ++ ['/']) : n <+: p ∨ n = p ++ (x ++ ['/']) := by
  rcases List.prefix_or_prefix_of_prefix hn (List.prefix_append p _) with h | ⟨t, rfl⟩
  · exact .inl h
  · rw [List.prefix_append_right_inj] at hn
    rcases List.eq_nil_or_concat' t with rfl | ⟨t', ch, rfl⟩
    · exact .inl (by simp)
    · obtain ⟨b, hb⟩ := hend
      have hch : ch = '/' := by
        have := congrArg List.getLast? hb
        simpa [← List.append_assoc] using this
      subst hch
      rw [eq_of_prefix_slash hx hn]
      exact .inr rfl

end Segments

/-! ## Paths in a tree-shaped catalog -/

section Wf

variable {c : Tables} {n m : NodeRow}

theorem Tables.Wf.id_slash_free (hw : c.Wf) (hn : n ∈ c.nodes) : '/' ∉ n.id.text.toList := by
  obtain ⟨k, -, hk⟩ := hw.nodesMinted n hn
  rw [hk]
  exact slash_not_mem_ofSerial k

theorem Tables.Wf.path_ends_slash (hw : c.Wf) (hn : n ∈ c.nodes) :
    ∃ b, n.path.toList = b ++ ['/'] := by
  rcases hw.placed n hn with hr | ⟨p, -, hb⟩
  · exact ⟨'/' :: n.id.text.toList, by simp [hr.path]⟩
  · exact ⟨p.path.toList ++ n.id.text.toList, by simp [hb.path]⟩

/-- Every path is some text, a slash, the node's id and a slash. -/
theorem Tables.Wf.path_shape (hw : c.Wf) (hn : n ∈ c.nodes) :
    ∃ b, n.path.toList = b ++ '/' :: (n.id.text.toList ++ ['/']) := by
  rcases hw.placed n hn with hr | ⟨p, hp, hb⟩
  · exact ⟨[], by simp [hr.path]⟩
  · obtain ⟨b, hpb⟩ := hw.path_ends_slash hp
    exact ⟨b, by simp [hb.path, hpb]⟩

theorem Tables.Wf.two_le_path_length (hw : c.Wf) (hn : n ∈ c.nodes) : 2 ≤ n.path.toList.length := by
  obtain ⟨b, hb⟩ := hw.path_shape hn
  rw [hb]
  simp
  omega

/-- A node is fixed by its path. -/
theorem Tables.Wf.eq_of_path (hw : c.Wf) (hn : n ∈ c.nodes) (hm : m ∈ c.nodes)
    (h : n.path = m.path) : n = m := by
  obtain ⟨b, hb⟩ := hw.path_shape hn
  obtain ⟨b', hb'⟩ := hw.path_shape hm
  have hl : b ++ '/' :: n.id.text.toList = b' ++ '/' :: m.id.text.toList := by
    have := hb.symm.trans ((congrArg String.toList h).trans hb')
    have : (b ++ '/' :: n.id.text.toList) ++ ['/'] = (b' ++ '/' :: m.id.text.toList) ++ ['/'] := by
      simpa using this
    exact List.append_cancel_right this
  have hid : n.id.text.toList = m.id.text.toList :=
    eq_of_append_slash (hw.id_slash_free hn) (hw.id_slash_free hm) hl
  have : n.id = m.id := by
    cases hni : n.id
    cases hmi : m.id
    rw [hni, hmi] at hid
    exact congrArg NodeId.mk (String.ext hid)
  exact hw.node_eq_of_id hn hm this

/-- One step up from a member of a subtree: it is the subtree's root, or its parent is in
the subtree too. -/
theorem Tables.Wf.within_cases (hw : c.Wf) (hm : m ∈ c.nodes) (hn : n ∈ c.nodes)
    (h : m.inSubtree n.path) : n = m ∨ ∃ p ∈ c.nodes, m.SitsBelow p ∧ p.inSubtree n.path := by
  rw [NodeRow.inSubtree_iff] at h
  have hend := hw.path_ends_slash hn
  rcases hw.placed m hm with hr | ⟨p, hp, hb⟩
  · -- a root's path has two slashes only, so a node path inside it is the root's own
    have hpath : m.path.toList = ['/'] ++ (m.id.text.toList ++ ['/']) := by simp [hr.path]
    rw [hpath] at h
    rcases prefix_slash_cases (hw.id_slash_free hm) h hend with h | h
    · have := h.length_le
      have := hw.two_le_path_length hn
      simp at *
      omega
    · exact .inl (hw.eq_of_path hn hm (String.ext (h.trans hpath.symm)))
  · have hpath : m.path.toList = p.path.toList ++ (m.id.text.toList ++ ['/']) := by simp [hb.path]
    rw [hpath] at h
    rcases prefix_slash_cases (hw.id_slash_free hm) h hend with h | h
    · exact .inr ⟨p, hp, hb, NodeRow.inSubtree_iff.2 h⟩
    · exact .inl (hw.eq_of_path hn hm (String.ext (h.trans hpath.symm)))

end Wf

/-! ## Descent by parent links -/

/-- `m` descends from `n` by parent links (`n` itself included). -/
inductive Tables.Descends (c : Tables) : NodeRow → NodeRow → Prop
  | refl (n : NodeRow) : c.Descends n n
  | child {m p n : NodeRow} : m ∈ c.nodes → p ∈ c.nodes → m.parent = some p.id →
      c.Descends p n → c.Descends m n

section Descent

variable {c : Tables} {n m : NodeRow}

theorem Tables.Wf.sitsBelow_of_parent (hw : c.Wf) {p : NodeRow} (hm : m ∈ c.nodes)
    (hp : p ∈ c.nodes) (h : m.parent = some p.id) : m.SitsBelow p := by
  rcases hw.placed m hm with hr | ⟨q, hq, hb⟩
  · simp [hr.parent] at h
  · obtain rfl := hw.node_eq_of_id hq hp (Option.some.inj (hb.parent.symm.trans h))
    exact hb

theorem Tables.Wf.within_of_descends (hw : c.Wf) (h : c.Descends m n) :
    m.tenant = n.tenant ∧ m.inSubtree n.path := by
  induction h with
  | refl n => exact ⟨rfl, n.inSubtree_self⟩
  | child hm hp hpar _ ih =>
    have hb := hw.sitsBelow_of_parent hm hp hpar
    exact ⟨hb.tenant.symm.trans ih.1, hb.inSubtree ih.2⟩

theorem Tables.Wf.descends_of_within (hw : c.Wf) (hm : m ∈ c.nodes) (hn : n ∈ c.nodes)
    (ht : m.tenant = n.tenant) (h : m.inSubtree n.path) : c.Descends m n := by
  -- induction on the depth of `m`: each step up lands one level higher, still in the subtree
  induction hd : m.depth using Nat.strong_induction_on generalizing m with
  | _ d ih =>
    rcases hw.within_cases hm hn h with rfl | ⟨p, hp, hb, hpn⟩
    · exact .refl n
    · have hlt : p.depth < d := by
        have := hb.depth
        omega
      exact .child hm hp hb.parent (ih p.depth hlt hp (hb.tenant.trans ht) hpn rfl)

end Descent

end DataCatalog.Catalog
