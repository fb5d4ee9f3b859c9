import Mathlib
import DataCatalog.Proofs.Storage.Browsing
/-!
# A bucket pass leaves the listing's tree

A pass over a whole bucket writes the bucket's node, rebuilds its subtree from a walk of the
bucket and finishes the node. The rebuild of the subtree tracks one node per path it has
placed, linked to the node one segment up; the pass then leaves below the bucket's node exactly
the directory tree of the walked objects. Each tracked path is the root or a directory of the
listing, and each directory of the listing is tracked, since an object's directory is tracked
and tracked paths are closed under going up. Walking up the links from a tracked node to the
bucket's node fixes its full name and depth. The items are the walk's object records placed in
key order, each path keeping the last of its records, which is the record of the greatest key
that normalizes to it.
-/

namespace DataCatalog.Storage

open DataCatalog.Text

/-- Going one segment below `q` adds that segment to `q`'s. -/
theorem segmentsOf_joinRel {q x : String} (hx : x ≠ "") (hslash : '/' ∉ x.toList) :
    segmentsOf (joinRel q x) = segmentsOf q ++ [x] := by
  have hx' : segmentsOf x = [x] := by rw [segmentsOf_of_not_mem hslash, if_neg hx]
  by_cases hq : q = ""
  · subst hq
    rw [joinRel_empty, hx']
    rfl
  · rw [joinRel_of_ne hq, segmentsOf_append_slash, hx']

theorem joinBucket_joinRel (B : String) {q x : String} (hx : x ≠ "") :
    joinBucket B (joinRel q x) = joinBucket B q ++ "/" ++ x := by
  by_cases hq : q = ""
  · subst hq
    simp [joinBucket, joinRel_empty, String.isEmpty_iff, hx]
  · rw [joinRel_of_ne hq]
    simp [joinBucket, String.isEmpty_iff, hq, String.append_assoc]

/-- A directory of a listing is a normal path, so not empty. -/
theorem ListingDir.ne_empty {W : List ListedObject} {d : String} (h : ListingDir W d) : d ≠ "" := by
  obtain ⟨o, -, hdir⟩ := h
  exact hdir.normalizeKey_eq.1.ne_empty

end DataCatalog.Storage

namespace DataCatalog.Catalog

/-- A row of a well-formed catalog with no parent sits at the top. -/
theorem Tables.Wf.rooted_of_parent {c : Tables} {r : NodeRow} (hw : c.Wf) (hr : r ∈ c.nodes)
    (hpar : r.parent = none) : r.Rooted := by
  rcases hw.placed r hr with hroot | ⟨p, -, hbelow⟩
  · exact hroot
  · have := hbelow.parent
    rw [hpar] at this
    cases this

/-- Beginning a scan stamps rows in place: every placed node stays placed. -/
theorem Tables.Places.of_beginNodeScan {c c' : Tables} {n : NodeRow} (h : c.Places n)
    {t : Ident.TenantId} {id : Ident.NodeId} (hb : beginNodeScan t id c = .ok ((), c')) :
    c'.Places n := by
  obtain ⟨-, rfl⟩ := beginNodeScan_ok hb
  exact h.of_update rfl (fun _ => ⟨rfl, rfl, rfl, rfl, rfl⟩) fun _ => rfl

/-- A placed node with no parent is named in full by its own name. -/
theorem Tables.Places.fullName_of_top {c : Tables} {n : NodeRow} (hw : c.Wf) (hp : c.Places n)
    (hpar : n.parent = none) : n.fullName = n.name := by
  obtain ⟨r, hr, href, -⟩ := hp
  have hroot := hw.rooted_of_parent hr (href.parent.trans hpar)
  rw [← href.fullName, hroot.fullName]
  exact (NodeRow.naturalKey_eq.1 href.key).2.2.2.2

end DataCatalog.Catalog

namespace DataCatalog.Scan

open DataCatalog.Catalog DataCatalog.Storage DataCatalog.Text

/-! ## The last key of a path -/

/-- `o` is a walked object whose key is the greatest of those that normalize to its path. -/
def LastKeyOf (W : List ListedObject) (o : ListedObject) : Prop :=
  o ∈ W ∧ ∀ o' ∈ W, normalizeKey o'.key = normalizeKey o.key → o'.key ≤ o.key

/-- The walked objects' records in key order, as a rebuild of their bucket places them, their
content types named by the registry `R`. -/
def keyOrdered (R : List (String × String)) (B : String) (W : List ListedObject) :
    List ObjectRecord :=
  (W.mergeSort fun a b => decide (a.key ≤ b.key)).map (·.record R B)

section Sorted

variable {W : List ListedObject} {R : List (String × String)} {B : String}

/-- The last record of a path among the walked objects placed in key order is the record of a
last key of that path. -/
theorem lastAt_sorted {rel : String} {r : ObjectRecord}
    (h : lastAt (keyOrdered R B W) rel = some r) :
    ∃ o, LastKeyOf W o ∧ normalizeKey o.key = rel ∧ r = o.record R B := by
  set L := W.mergeSort fun a b => decide (a.key ≤ b.key) with hL
  have hperm : L.Perm W := List.mergeSort_perm W _
  rw [lastAt, keyOrdered, ← List.map_reverse, List.find?_map] at h
  obtain ⟨o, hfind, rfl⟩ := Option.map_eq_some_iff.1 h
  obtain ⟨ho, as, bs, hsplit, has⟩ := List.find?_eq_some_iff_append.1 hfind
  have hrel : normalizeKey o.key = rel := by simpa [ListedObject.record] using ho
  -- reversed back, the objects after `o` in the reversed list come before it in key order
  have hL' : L = bs.reverse ++ o :: as.reverse := by
    rw [← List.reverse_reverse L, hsplit]
    simp
  refine ⟨o, ⟨hperm.subset (by rw [hL']; simp), fun o' ho' hsame => ?_⟩, hrel, rfl⟩
  have hmem : o' ∈ L.reverse := List.mem_reverse.2 (hperm.symm.subset ho')
  rw [hsplit] at hmem
  rcases List.mem_append.1 hmem with hin | hin
  · have := has o' hin
    simp [ListedObject.record, hsame, hrel] at this
  rcases List.mem_cons.1 hin with rfl | hin
  · exact le_refl _
  · have hsorted := pairwise_sortByKey W
    rw [← hL, hL', List.pairwise_append] at hsorted
    exact hsorted.2.2 o' (List.mem_reverse.2 hin) o List.mem_cons_self

/-- Every walked object's path has a last record among the objects placed in key order. -/
theorem lastAt_sorted_isSome {o : ListedObject} (ho : o ∈ W) :
    ∃ r, lastAt (keyOrdered R B W) (normalizeKey o.key) = some r := by
  have hmem : o.record R B ∈ keyOrdered R B W :=
    List.mem_map_of_mem ((List.mergeSort_perm W _).symm.subset ho)
  have hsome := lastAt_isSome hmem
  simp only [ListedObject.record] at hsome
  exact Option.isSome_iff_exists.1 hsome

end Sorted

/-! ## The tree of a listing -/

/-- The paths of a listing's tree: the bucket's root `""` and every directory of the listing. -/
def ListingPath (W : List ListedObject) (d : String) : Prop := d = "" ∨ ListingDir W d

/-- The catalog `c` holds below the bucket node `nodeOf ""` exactly the directory tree of the
walked objects `W` of bucket `B`, with `nodeOf d` the node of path `d`: the bucket's own node,
carrying `X`; one live prefix node per directory of the listing, named and placed by it; and
below the node of each path's directory one object item per path, showing the object of the
path's last key. -/
structure ListingTree (c : Tables) (t : Ident.TenantId) (ρ : Ident.ResourceId)
    (R : List (String × String)) (B : String)
    (W : List ListedObject) (X : NodeAttributes) (nodeOf : String → NodeRow) : Prop where
  nodes : ∀ d, ListingPath W d → nodeOf d ∈ c.nodes ∧ (nodeOf d).isLive ∧
    (nodeOf d).tenant = t ∧ (nodeOf d).fullName = joinBucket B d ∧
    (nodeOf d).depth = (segmentsOf d).length + 1 ∧ (nodeOf d).scanStatus = .scanned
  bucket : (nodeOf "").naturalKey = (t, ρ, none, .bucket, B) ∧ (nodeOf "").attributes = X
  prefixes : ∀ d, ListingDir W d → (nodeOf d).kind = .keyPrefix ∧ (nodeOf d).name = baseName d ∧
    (nodeOf d).parent = some (nodeOf (parentDir d)).id
  only : ∀ n ∈ c.nodes, n.tenant = t → n.inSubtree (nodeOf "").path →
    ∃ d, ListingPath W d ∧ n = nodeOf d
  items : ∀ d, ListingPath W d → ∀ it ∈ c.items, it.node = (nodeOf d).id →
    ∃ o, LastKeyOf W o ∧ parentDir (normalizeKey o.key) = d ∧ it.Shows (o.record R B)
  stocked : ∀ o ∈ W, ∃ it ∈ c.items, it.node = (nodeOf (parentDir (normalizeKey o.key))).id ∧
    ∃ o', LastKeyOf W o' ∧ normalizeKey o'.key = normalizeKey o.key ∧ it.Shows (o'.record R B)
  single : ∀ d, ListingPath W d → ∀ it ∈ c.items, ∀ it' ∈ c.items, it.node = (nodeOf d).id →
    it'.node = (nodeOf d).id → it.name = it'.name → it = it'

/-! ## The tracked nodes of a rebuild from the root -/

section Frame

variable {c : Tables} {target : NodeRow} {base : String} {tracked : List (String × NodeRow)}

/-- The target of a rebuild is placed: its entry's row is. -/
theorem Frame.places_target (hf : Frame c target base tracked) : c.Places target := by
  obtain ⟨t, ht, hreft⟩ := hf.root
  obtain ⟨r, hr, href, hl⟩ := hf.rows _ ht
  exact ⟨r, hr, href.trans hreft, hl⟩

/-- Each tracked path can be given the live row of its entry. -/
theorem Frame.exists_rowOf (hf : Frame c target base tracked) :
    ∃ nodeOf : String → NodeRow, ∀ e ∈ tracked,
      nodeOf e.1 ∈ c.nodes ∧ (nodeOf e.1).Refines e.2 ∧ (nodeOf e.1).isLive := by
  have hrow : ∀ d, ∃ n : NodeRow, ∀ e ∈ tracked, e.1 = d →
      n ∈ c.nodes ∧ n.Refines e.2 ∧ n.isLive := by
    intro d
    by_cases hd : ∃ e ∈ tracked, e.1 = d
    · obtain ⟨e, he, rfl⟩ := hd
      obtain ⟨n, hn, href, hl⟩ := hf.rows e he
      refine ⟨n, fun e' he' hk => ?_⟩
      obtain rfl := hf.eq_of_key he' he hk
      exact ⟨hn, href, hl⟩
    · exact ⟨target, fun e he hk => absurd ⟨e, he, hk⟩ hd⟩
  choose nodeOf hnodeOf using hrow
  exact ⟨nodeOf, fun e he => hnodeOf e.1 e he rfl⟩

/-- Walking up the links from a tracked node to the target at the top fixes the node's full name
and depth: the node of path `d` is `B/d`, one level deeper per segment of `d`. -/
theorem Frame.shape (hf : Frame c target "" tracked) {B : String} (hpar : target.parent = none)
    (hname : target.name = B) : ∀ e ∈ tracked, ∀ r ∈ c.nodes, r.id = e.2.id →
      r.fullName = joinBucket B e.1 ∧ r.depth = (segmentsOf e.1).length + 1 := by
  refine hf.induction_links (fun e he hb r hr hid => ?_)
    fun e he q hq _ hjoin hqpar hkind hne hslash ih r hr hid => ?_
  · -- the root entry: a row of the target's id, which sits at the top
    obtain ⟨t, ht, hreft⟩ := hf.root
    obtain rfl : e = ("", t) := hf.eq_of_key he ht hb
    have hrt := (hf.row_eq he hr hid).trans hreft
    have hroot := hf.wf.rooted_of_parent hr (hrt.parent.trans hpar)
    have hn : r.name = target.name := (NodeRow.naturalKey_eq.1 hrt.key).2.2.2.2
    rw [hroot.fullName, hroot.depth, hn, hname]
    exact ⟨rfl, rfl⟩
  · -- the row sits below the row of the entry one segment up
    have href := hf.row_eq he hr hid
    obtain ⟨rq, hrq, hrefq, -⟩ := hf.rows q hq
    have hbelow := hf.wf.sitsBelow_of_parent hr hrq (by rw [href.parent, hqpar, hrefq.id])
    obtain ⟨hfull, hdepth⟩ := ih rq hrq hrefq.id
    have hk : r.kind = .keyPrefix := (NodeRow.naturalKey_eq.1 href.key).2.2.2.1.trans hkind
    have hn : r.name = e.2.name := (NodeRow.naturalKey_eq.1 href.key).2.2.2.2
    rw [hjoin, hbelow.fullName, hbelow.depth, hfull, hdepth, hk, hn, joinBucket_joinRel B hne,
      segmentsOf_joinRel hne hslash, List.length_append]
    exact ⟨rfl, rfl⟩

end Frame

/-! ## A finished rebuild of the whole bucket -/

section Finished

variable {target : NodeRow} {W : List ListedObject} {X : NodeAttributes}
  {R : List (String × String)} {B : String}
  {tracked : List (String × NodeRow)} {w : World}
  (hb : Building target "" (ListingDir W) X (keyOrdered R B W) tracked w)
include hb

/-- The tracked paths are exactly the paths of the listing's tree. Every tracked path is the
root or a directory of the listing; conversely an object's directory is tracked, since its item
is filed there, and going up from a tracked path stays on tracked paths. -/
theorem Building.tracked_iff {d : String} : d ∈ tracked.map (·.1) ↔ ListingPath W d := by
  constructor
  · intro hd
    obtain ⟨e, he, rfl⟩ := List.mem_map.1 hd
    exact hb.allowed e he
  · rintro (rfl | ⟨o, ho, hdir⟩)
    · obtain ⟨t, ht, -⟩ := hb.frame.root
      exact List.mem_map_of_mem ht
    · obtain ⟨r, hr⟩ := lastAt_sorted_isSome (B := B) ho
      obtain ⟨-, -, e, he, hpe, -, -⟩ := hb.stock.stocked _ r hr
      exact (IsDirOf.reached hdir).mem hb.frame.climbs (List.mem_map.2 ⟨e, he, hpe⟩)

variable {nodeOf : String → NodeRow}
  (hat : ∀ e ∈ tracked, nodeOf e.1 ∈ w.catalog.nodes ∧ (nodeOf e.1).Refines e.2 ∧
    (nodeOf e.1).isLive)
include hat

/-- The node of a path of the tree is the row of the path's tracked entry. -/
theorem Building.entry_of_path {d : String} (hd : ListingPath W d) :
    ∃ e ∈ tracked, e.1 = d ∧ (nodeOf d).id = e.2.id := by
  obtain ⟨e, he, rfl⟩ := List.mem_map.1 ((hb.tracked_iff).2 hd)
  exact ⟨e, he, rfl, (hat e he).2.1.id⟩

/-- A node of the target's subtree is the node of a path of the listing's tree. -/
theorem Building.only {n : NodeRow} (hn : n ∈ w.catalog.nodes) (ht : n.tenant = target.tenant)
    (hs : n.inSubtree (nodeOf "").path) : ∃ d, ListingPath W d ∧ n = nodeOf d := by
  obtain ⟨t, ht₀, hreft⟩ := hb.frame.root
  have hpath : (nodeOf "").path = target.path := ((hat _ ht₀).2.1.trans hreft).path
  obtain ⟨e, he, hid⟩ := hb.frame.complete n hn ht (by rwa [← hpath])
  refine ⟨e.1, hb.allowed e he, hb.frame.wf.node_eq_of_id hn (hat e he).1 ?_⟩
  rw [← hid, (hat e he).2.1.id]

/-- Every item below the node of a path of the tree shows the record of a last key whose
path's directory is that path. -/
theorem Building.items {d : String} (hd : ListingPath W d) {it : ItemRow}
    (hit : it ∈ w.catalog.items) (hnode : it.node = (nodeOf d).id) :
    ∃ o, LastKeyOf W o ∧ parentDir (normalizeKey o.key) = d ∧ it.Shows (o.record R B) := by
  obtain ⟨e, he, rfl, hid⟩ := hb.entry_of_path hat hd
  obtain ⟨r, hr, hdir, hshows⟩ := hb.stock.shows it hit e he (by rw [hnode, hid])
  obtain ⟨o, hlast, hrel, rfl⟩ := lastAt_sorted hr
  refine ⟨o, hlast, ?_, hshows⟩
  rw [hrel]
  exact hdir

/-- Every walked object's path has an item below the node of its directory, showing the record
of the path's last key. -/
theorem Building.stocked {o : ListedObject} (ho : o ∈ W) :
    ∃ it ∈ w.catalog.items, it.node = (nodeOf (parentDir (normalizeKey o.key))).id ∧
      ∃ o', LastKeyOf W o' ∧ normalizeKey o'.key = normalizeKey o.key ∧ it.Shows (o'.record R B) := by
  obtain ⟨r, hr⟩ := lastAt_sorted_isSome (B := B) ho
  obtain ⟨it, hit, e, he, hpe, hid, hshows⟩ := hb.stock.stocked _ r hr
  obtain ⟨o', hlast, hrel, rfl⟩ := lastAt_sorted hr
  refine ⟨it, hit, ?_, o', hlast, hrel, hshows⟩
  rw [← hpe, (hat e he).2.1.id, hid]

/-- Below the node of a path of the tree, an item is fixed by its name: the items there are
all object items of the node's tenant and resource, whose natural keys differ. -/
theorem Building.single {d : String} (hd : ListingPath W d) {it it' : ItemRow}
    (hit : it ∈ w.catalog.items) (hit' : it' ∈ w.catalog.items) (hn : it.node = (nodeOf d).id)
    (hn' : it'.node = (nodeOf d).id) (hname : it.name = it'.name) : it = it' := by
  obtain ⟨e, he, rfl, -⟩ := hb.entry_of_path hat hd
  have hmem := (hat e he).1
  obtain ⟨o, -, -, hshows⟩ := hb.items hat hd hit hn
  obtain ⟨o', -, -, hshows'⟩ := hb.items hat hd hit' hn'
  obtain ⟨hten, hres⟩ := hb.frame.wf.item_of_node hmem hit hn
  obtain ⟨hten', hres'⟩ := hb.frame.wf.item_of_node hmem hit' hn'
  refine List.inj_on_of_nodup_map hb.frame.wf.itemKeys hit hit' ?_
  simp only [ItemRow.naturalKey, hten, hten', hres, hres', hn, hn', hshows.kind, hshows'.kind,
    hname]

/-- The node of a directory of the listing is a prefix node named by the directory's last
segment, below the node of the directory one up. -/
theorem Building.prefixes {d : String} (hd : ListingDir W d) :
    (nodeOf d).kind = .keyPrefix ∧ (nodeOf d).name = baseName d ∧
      (nodeOf d).parent = some (nodeOf (parentDir d)).id := by
  obtain ⟨e, he, rfl, -⟩ := hb.entry_of_path hat (.inr hd)
  obtain ⟨q, hq, hjoin, hqpar, hkind, -, hslash⟩ := hb.frame.links e he hd.ne_empty
  have href := (hat e he).2.1
  obtain ⟨-, -, hpar, hk, hn⟩ := NodeRow.naturalKey_eq.1 href.key
  have hup : parentDir e.1 = q.1 := by rw [hjoin, parentDir_joinRel hslash]
  refine ⟨hk.trans hkind, by rw [hn, hjoin, baseName_joinRel hslash], ?_⟩
  rw [hpar, hqpar, hup, (hat q hq).2.1.id]

/-- The nodes of the tree: live, of the target's tenant, at `B/d` and as deep as `d` has
segments, and scanned once every tracked node is. -/
theorem Building.nodes (hpar : target.parent = none) (hname : target.name = B)
    (hscan : ∀ e ∈ tracked, w.catalog.ScannedAt e.2.id) {d : String} (hd : ListingPath W d) :
    nodeOf d ∈ w.catalog.nodes ∧ (nodeOf d).isLive ∧ (nodeOf d).tenant = target.tenant ∧
      (nodeOf d).fullName = joinBucket B d ∧ (nodeOf d).depth = (segmentsOf d).length + 1 ∧
      (nodeOf d).scanStatus = .scanned := by
  obtain ⟨e, he, rfl, hid⟩ := hb.entry_of_path hat hd
  obtain ⟨hmem, href, hlive⟩ := hat e he
  obtain ⟨hfull, hdepth⟩ := hb.frame.shape hpar hname e he _ hmem hid
  obtain ⟨r, hr, hrid, hscanned⟩ := hscan e he
  obtain rfl := hb.frame.wf.node_eq_of_id hr hmem (hrid.trans hid.symm)
  exact ⟨hr, hlive, href.tenant.trans (hb.frame.within e he).1, hfull, hdepth, hscanned⟩

/-- A finished rebuild of a bucket's node from the root, with every tracked node scanned, leaves
the listing's tree below the node. -/
theorem Building.listingTree {t : Ident.TenantId} {ρ : Ident.ResourceId}
    (hkey : target.naturalKey = (t, ρ, none, .bucket, B))
    (hscan : ∀ e ∈ tracked, w.catalog.ScannedAt e.2.id) :
    ListingTree w.catalog t ρ R B W X nodeOf := by
  have hparts := hkey
  simp only [NodeRow.naturalKey, Prod.mk.injEq] at hparts
  obtain ⟨ht, -, hpar, -, hname⟩ := hparts
  -- the node of the root refines the target
  obtain ⟨t₀, ht₀, hreft⟩ := hb.frame.root
  have hroot := (hat _ ht₀).2.1.trans hreft
  refine ⟨fun d hd => ?_, ⟨hroot.key.trans hkey, hb.attrs _ (hat _ ht₀).1 hroot.id⟩,
    fun d hd => hb.prefixes hat hd, fun n hn hnt hs => hb.only hat hn (hnt.trans ht.symm) hs,
    fun d hd it hit hn => hb.items hat hd hit hn, fun o ho => hb.stocked hat ho,
    fun d hd it hit it' hit' hn hn' hnm => hb.single hat hd hit hit' hn hn' hnm⟩
  obtain ⟨hmem, hlive, hten, hrest⟩ := hb.nodes hat hpar hname hscan hd
  exact ⟨hmem, hlive, hten.trans ht, hrest⟩

end Finished

/-! ## The pass over a whole bucket -/

/-- A successful pass over a clean bucket name without a reserved segment writes the bucket's
node at the top and rebuilds it from a walk of the whole bucket: it ends with the rebuild of the
bucket's listing finished and every tracked node scanned. -/
theorem bucketPass_rebuilds {resource : ResourceRow} {B : String} {w w' : World}
    {counts : ScanCounts} (hw : w.catalog.Wf) (hB : splitObjectPath B = some (B, ""))
    (hres : hasReservedSegment B = false)
    (h : (reconcileObjectPath resource B).runAlone w = (.ok counts, w')) :
    ∃ node os tracked lm, node.naturalKey = (resource.tenant, resource.id, none, .bucket, B) ∧
      w.objects.buckets.lookup B = some os ∧
      Building node "" (ListingDir (walkedObjects os))
        (.storage (walkedObjects os).length
          (Word.wrappingSum ((walkedObjects os).map (·.sizeBytes))) lm)
        (keyOrdered w.mediaTypes B (walkedObjects os)) tracked w' ∧
      ∀ e ∈ tracked, w'.catalog.ScannedAt e.2.id := by
  rw [reconcileObjectPath_whole_bucket resource hB hres] at h
  obtain ⟨node, w₁, h₁, h₂⟩ := Step.runAlone_bind_ok h
  -- the bucket's node is written at the top, named in full by the bucket
  have hu := Step.inCatalogSpan_catalog h₁
  have hw₁ := upsertNode_wf hw hu
  obtain ⟨hplaced, hkey⟩ := upsertNode_places_row hw hu
  have hobj : w₁.objects = w.objects := by rw [(Step.inCatalogSpan_ok h₁).2]
  have hreg : w₁.mediaTypes = w.mediaTypes := by rw [(Step.inCatalogSpan_ok h₁).2]
  have hparts := hkey
  simp only [NodeRow.naturalKey, Prod.mk.injEq] at hparts
  obtain ⟨-, -, hpar, -, hname⟩ := hparts
  have hfull : node.fullName = B := (hplaced.fullName_of_top hw₁ hpar).trans hname
  -- its scan begins, and the rebuild succeeds, since the pass does
  obtain ⟨r₁, hr₁, -⟩ := hw₁.nodeById?_of_places hplaced
  obtain ⟨c₂, hbegin⟩ := beginNodeScan_of_live (c := w₁.catalog) (by rw [hr₁]; rfl)
  rw [reconcileSubtree_eq, subtreePass_runAlone _ hbegin] at h₂
  rcases hrun : (replaceObjects node "" none).runAlone { w₁ with catalog := c₂ } with
    ⟨_ | ⟨agg, k⟩, w₃⟩
  · rw [hrun] at h₂
    dsimp only at h₂
    split at h₂ <;> cases h₂
  rw [hrun] at h₂
  obtain ⟨-, hw'⟩ := Prod.mk.inj h₂
  obtain ⟨os, hos, tracked, lm, hbuild, hscanned⟩ :=
    replaceObjects_bucket (beginNodeScan_wf hw₁ hbegin) (hplaced.of_beginNodeScan hbegin)
      (by rw [hfull]; exact hB) hrun
  -- the rebuild names content types by the registry the pass started with
  dsimp only at hbuild
  rw [hfull, hreg] at hbuild
  rw [hfull] at hos
  -- finishing the bucket's node keeps the rebuild and marks the node scanned
  have hf : finishNodeScan node.tenant node.id agg w₃.catalog = .ok ((), w'.catalog) := by
    rw [← hw']
    rfl
  refine ⟨node, os, tracked, lm, hkey, by rw [← hobj]; exact hos, hbuild.finish hf,
    fun e he => ?_⟩
  by_cases hne : e.1 = ""
  · obtain ⟨t, ht, hreft⟩ := hbuild.frame.root
    obtain rfl := hbuild.frame.eq_of_key he ht hne
    rw [hreft.id]
    exact hbuild.frame.places_target.scannedAt_finish hf
  · exact (hscanned e he hne).finish hf

/-- A successful pass over a clean bucket name without a reserved segment leaves below the
bucket's node, of the pass's tenant and resource, exactly the directory tree of the bucket's
walked objects: the bucket node scanned and reporting how many objects the walk listed and
their wrapping total size, one scanned prefix node per directory of the listing, and one
object item per normalized path showing the object of the path's greatest key. -/
theorem bucketPass_builds_listing_tree {resource : ResourceRow} {B : String} {w w' : World}
    {counts : ScanCounts} (hw : w.catalog.Wf) (hB : splitObjectPath B = some (B, ""))
    (hres : hasReservedSegment B = false)
    (h : (reconcileObjectPath resource B).runAlone w = (.ok counts, w')) :
    ∃ os, w.objects.buckets.lookup B = some os ∧ ∃ nodeOf lm,
      ListingTree w'.catalog resource.tenant resource.id w.mediaTypes B (walkedObjects os)
        (.storage (walkedObjects os).length
          (Word.wrappingSum ((walkedObjects os).map (·.sizeBytes))) lm) nodeOf := by
  obtain ⟨node, os, tracked, lm, hkey, hos, hdone, hscan⟩ := bucketPass_rebuilds hw hB hres h
  obtain ⟨nodeOf, hat⟩ := hdone.frame.exists_rowOf
  exact ⟨os, hos, nodeOf, lm, hdone.listingTree hat hkey hscan⟩

/-- The pass over bucket `b`, on the allow-list and holding `a/x.csv`, leaves the tree of its
listing. -/
theorem bucketPass_of_one_object :
    let r : ResourceRow := ⟨⟨"r"⟩, ⟨1⟩, ⟨1⟩, "s3", "s3", "r", [], .active, 1, none, ⟨0, 0⟩,
      ⟨0, 0⟩⟩
    let w : World :=
      { catalog := { resources := [r] }
        objects := { buckets := [("b", [⟨"a/x.csv", 3, none, none⟩])] }
        connector := ObjectConnector.new ["b"] }
    w.catalog.Wf ∧ splitObjectPath "b" = some ("b", "") ∧ hasReservedSegment "b" = false ∧
      ((reconcileObjectPath r "b").runAlone w).1 = .ok { namespaces := 1, items := 1 } ∧
      ∃ os, w.objects.buckets.lookup "b" = some os ∧ ∃ nodeOf lm,
        ListingTree ((reconcileObjectPath r "b").runAlone w).2.catalog r.tenant r.id w.mediaTypes "b"
          (walkedObjects os) (.storage (walkedObjects os).length
            (Word.wrappingSum ((walkedObjects os).map (·.sizeBytes))) lm) nodeOf := by
  intro r w
  have hw : w.catalog.Wf := by constructor <;> simp [w]
  have hs : splitObjectPath "b" = some ("b", "") := by decide
  have hb : hasReservedSegment "b" = false := by decide
  have hok : ((reconcileObjectPath r "b").runAlone w).1 = .ok { namespaces := 1, items := 1 } := by
    decide +kernel
  exact ⟨hw, hs, hb, hok, bucketPass_builds_listing_tree hw hs hb (Prod.ext hok rfl)⟩

/-- A bucket named by a reserved segment is skipped: the pass over `__bucket__`, on the
allow-list and holding `x/y.csv`, counts one skip and writes no node, where the tree of its
listing has the bucket's node, a prefix `x` and an item `y.csv`. -/
theorem reservedBucket_pass_writes_nothing :
    let r : ResourceRow := ⟨⟨"r"⟩, ⟨1⟩, ⟨1⟩, "s3", "s3", "r", [], .active, 1, none, ⟨0, 0⟩,
      ⟨0, 0⟩⟩
    let w : World :=
      { catalog := { resources := [r] }
        objects := { buckets := [("__bucket__", [⟨"x/y.csv", 3, none, none⟩])] }
        connector := ObjectConnector.new ["__bucket__"] }
    splitObjectPath "__bucket__" = some ("__bucket__", "") ∧
      ((reconcileObjectPath r "__bucket__").runAlone w).1 = .ok { skipped := 1 } ∧
      ((reconcileObjectPath r "__bucket__").runAlone w).2.catalog.nodes = [] := by
  decide +kernel

end DataCatalog.Scan
