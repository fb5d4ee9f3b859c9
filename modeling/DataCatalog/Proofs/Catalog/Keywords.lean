import Mathlib
import DataCatalog.Catalog.Search
import DataCatalog.Proofs.Catalog.Ordering
/-!
# Keyword search

The pattern a keyword is looked up with escapes every character that `LIKE` gives a meaning
to, so under `LIKE` it matches a text exactly when the trimmed keyword occurs in the text, ASCII
capitals folded on both sides. The database reads pattern and text only up to a NUL character,
and the closing `%` of a pattern lies beyond a NUL of the keyword: such a keyword matches the
texts that end, before their own first NUL, with the keyword's part before its NUL. A keyword
made of a NUL alone is found in every text.

Table search answers the first rows by full name among the tenant's matching tables and views,
ordered by full name and kind; column search answers the first matching columns by table and
ordinal, in that order.
-/

namespace DataCatalog.Catalog

open DataCatalog.Text DataCatalog.Ident

/-! ## Matching a pattern -/

section Like

variable {p s : List Char}

theorem someSuffix_iff {f : List Char → Bool} :
    ∀ {s : List Char}, someSuffix f s = true ↔ ∃ t, t <:+ s ∧ f t = true
  | [] => by simp [someSuffix]
  | c :: s => by
    rw [someSuffix, Bool.or_eq_true, someSuffix_iff]
    constructor
    · rintro (h | ⟨t, ht, hf⟩)
      · exact ⟨c :: s, List.suffix_refl _, h⟩
      · exact ⟨t, ht.trans (List.suffix_cons _ _), hf⟩
    · rintro ⟨t, ht, hf⟩
      rcases List.suffix_cons_iff.1 ht with rfl | ht
      · exact .inl hf
      · exact .inr ⟨t, ht, hf⟩

/-- `%` matches any run of characters: the rest of the pattern matches some suffix. -/
theorem likeMatch_percent : likeMatch ('%' :: p) s = true ↔ ∃ t, t <:+ s ∧ likeMatch p t = true := by
  rw [likeMatch, someSuffix_iff]

theorem likeMatch_percent_nil : likeMatch ['%'] s = true :=
  likeMatch_percent.2 ⟨[], List.nil_suffix, rfl⟩

theorem likeMatch_nil : likeMatch [] s = true ↔ s = [] := by
  simp [likeMatch]

/-- A character escaped by `\` matches a character equal to it up to ASCII case. -/
theorem likeMatch_escaped {c : Char} :
    likeMatch ('\\' :: c :: p) s = true ↔
      ∃ d t, s = d :: t ∧ likeEq c d = true ∧ likeMatch p t = true := by
  cases s with
  | nil => simp [likeMatch]
  | cons d t => simp [likeMatch]

/-- A character with no meaning in a pattern matches a character equal to it up to ASCII
case. -/
theorem likeMatch_plain {c : Char} (hc : isLikeSpecial c = false) :
    likeMatch (c :: p) s = true ↔
      ∃ d t, s = d :: t ∧ likeEq c d = true ∧ likeMatch p t = true := by
  have h₁ : c ≠ '%' := by rintro rfl; exact absurd hc (by decide)
  have h₂ : c ≠ '_' := by rintro rfl; exact absurd hc (by decide)
  have h₃ : c ≠ '\\' := by rintro rfl; exact absurd hc (by decide)
  cases s with
  | nil => rw [likeMatch.eq_def]; split <;> simp_all
  | cons d t => rw [likeMatch.eq_def]; split <;> simp_all

theorem likeEq_iff {c d : Char} : likeEq c d = true ↔ asciiLowerChar c = asciiLowerChar d := by
  simp [likeEq]

/-- An escaped run of characters matches a run of the same length equal to it up to ASCII
case, the rest of the pattern the rest of the text. -/
theorem likeMatch_escapeLike_append :
    ∀ (k : List Char) {s : List Char}, likeMatch (escapeLike k ++ p) s = true ↔
      ∃ u t, s = u ++ t ∧ u.map asciiLowerChar = k.map asciiLowerChar ∧ likeMatch p t = true
  | [], s => by simp [escapeLike]
  | c :: k, s => by
    have hstep : likeMatch (escapeLike (c :: k) ++ p) s = true ↔
        ∃ d t, s = d :: t ∧ likeEq c d = true ∧ likeMatch (escapeLike k ++ p) t = true := by
      cases hc : isLikeSpecial c
      · simp only [escapeLike, hc, Bool.false_eq_true, if_false, List.cons_append]
        exact likeMatch_plain hc
      · simp only [escapeLike, hc, if_true, List.cons_append]
        exact likeMatch_escaped
    rw [hstep]
    constructor
    · rintro ⟨d, t, rfl, hd, ht⟩
      obtain ⟨u, v, rfl, hu, hv⟩ := (likeMatch_escapeLike_append k).1 ht
      exact ⟨d :: u, v, rfl, by simp [hu, (likeEq_iff.1 hd).symm], hv⟩
    · rintro ⟨_ | ⟨d, u⟩, t, rfl, hu, ht⟩
      · simp at hu
      · simp only [List.map_cons, List.cons.injEq] at hu
        exact ⟨d, u ++ t, rfl, likeEq_iff.2 hu.1.symm,
          (likeMatch_escapeLike_append k).2 ⟨u, t, rfl, hu.2, ht⟩⟩

/-- A run that starts a suffix of a list occurs in it, and every run that occurs in a list
starts one of its suffixes. -/
theorem exists_suffix_prefix_iff {P : List Char → Prop} :
    (∃ t, t <:+ s ∧ ∃ u v, t = u ++ v ∧ P u) ↔ ∃ u, u <:+: s ∧ P u := by
  constructor
  · rintro ⟨_, ht, u, v, rfl, hu⟩
    exact ⟨u, (List.prefix_append u v).isInfix.trans ht.isInfix, hu⟩
  · rintro ⟨u, ⟨a, b, rfl⟩, hu⟩
    exact ⟨u ++ b, ⟨a, by simp⟩, u, b, rfl, hu⟩

/-- The pattern `%k%` of an escaped run finds the run anywhere in a text, ASCII capitals
folded. -/
theorem likeMatch_contains (k : List Char) :
    likeMatch ('%' :: (escapeLike k ++ ['%'])) s = true ↔
      k.map asciiLowerChar <:+: s.map asciiLowerChar := by
  simp only [likeMatch_percent, likeMatch_escapeLike_append, likeMatch_percent_nil, and_true]
  rw [exists_suffix_prefix_iff, List.infix_map_iff]
  exact exists_congr fun u => and_congr_right fun _ => eq_comm

/-- The pattern `%k` of an escaped run finds the run at the end of a text, ASCII capitals
folded. -/
theorem likeMatch_endsWith (k : List Char) :
    likeMatch ('%' :: escapeLike k) s = true ↔ k.map asciiLowerChar <:+ s.map asciiLowerChar := by
  rw [← List.append_nil (escapeLike k)]
  simp only [likeMatch_percent, likeMatch_escapeLike_append, likeMatch_nil]
  rw [List.suffix_map_iff]
  constructor
  · rintro ⟨t, ht, u, v, rfl, hu, rfl⟩
    exact ⟨u, by simpa using ht, hu.symm⟩
  · rintro ⟨u, hu, he⟩
    exact ⟨u, hu, u, [], by simp, he.symm, rfl⟩

theorem likePattern_toList (k : String) :
    (likePattern k).toList = '%' :: (escapeLike (trim k).toList ++ ['%']) := by
  simp [likePattern]

/-- Under `LIKE`, a keyword's pattern matches a text exactly when the trimmed keyword occurs in
the text, ASCII capitals folded on both sides: no character of the keyword acts as a
wildcard. -/
theorem likeMatch_likePattern (k s : String) :
    likeMatch (likePattern k).toList s.toList = true ↔
      (asciiLower (trim k)).toList <:+: (asciiLower s).toList := by
  rw [likePattern_toList, likeMatch_contains]
  simp [asciiLower]

end Like

/-! ## Reading up to a NUL character -/

section Nul

/-- Cutting an escaped run at its first NUL escapes the run cut at its first NUL, and reaches
beyond it only when the run holds no NUL. -/
theorem takeWhile_escapeLike_append (r : List Char) : ∀ k : List Char,
    (escapeLike k ++ r).takeWhile (· ≠ '\x00') =
      escapeLike (k.takeWhile (· ≠ '\x00')) ++
        if '\x00' ∈ k then [] else r.takeWhile (· ≠ '\x00')
  | [] => by simp [escapeLike]
  | c :: k => by
    have ih := takeWhile_escapeLike_append r k
    simp only [ne_eq, decide_not] at ih ⊢
    by_cases hc : c = '\x00'
    · subst hc
      simp [escapeLike, isLikeSpecial]
    · by_cases hs : isLikeSpecial c <;>
        simp [escapeLike, hs, hc, Ne.symm hc, ih]

/-- A run without NUL characters is read whole. -/
theorem takeWhile_ne_nul {l : List Char} (h : '\x00' ∉ l) : l.takeWhile (· ≠ '\x00') = l :=
  List.takeWhile_eq_self_iff.2 fun c hc => decide_eq_true fun he : c = '\x00' => h (he ▸ hc)

/-- Where search finds a keyword in a text, both read up to their first NUL character: the
trimmed keyword, ASCII capitals folded, occurs in the text so folded; a keyword holding a NUL
instead ends the text with its part before the NUL. -/
def KeywordFound (k s : String) : Prop :=
  let key := (trim k).toList
  let text := (beforeNul s).map asciiLowerChar
  if '\x00' ∈ key then (key.takeWhile (· ≠ '\x00')).map asciiLowerChar <:+ text
  else key.map asciiLowerChar <:+: text

/-- A keyword matches exactly where it is found. -/
theorem keywordMatches_iff_found (k s : String) :
    keywordMatches k s = true ↔ KeywordFound k s := by
  have hcut : beforeNul (likePattern k) = '%' :: (escapeLike ((trim k).toList.takeWhile (· ≠ '\x00')) ++
      if '\x00' ∈ (trim k).toList then [] else ['%']) := by
    rw [beforeNul, likePattern_toList, List.takeWhile_cons_of_pos (by decide),
      takeWhile_escapeLike_append]
    rfl
  unfold keywordMatches KeywordFound
  dsimp only
  rw [hcut]
  by_cases hn : '\x00' ∈ (trim k).toList
  · rw [if_pos hn, if_pos hn, List.append_nil, likeMatch_endsWith]
  · rw [if_neg hn, if_neg hn, likeMatch_contains, takeWhile_ne_nul hn]

/-- Trimming keeps some of the characters, in order. -/
theorem trim_sublist (k : String) : (trim k).toList.Sublist k.toList := by
  simp only [trim, trimList, dropBlanks, String.toList_ofList]
  have h := List.reverse_sublist.2 (List.dropWhile_sublist (p := isBlank)
    (l := (k.toList.dropWhile isBlank).reverse))
  rw [List.reverse_reverse] at h
  exact h.trans (List.dropWhile_sublist _)

/-- Without NUL characters, search finds a keyword exactly where the trimmed keyword occurs,
ASCII capitals folded. -/
theorem keywordFound_iff_infix {k s : String} (hk : '\x00' ∉ k.toList) (hs : '\x00' ∉ s.toList) :
    KeywordFound k s ↔ (asciiLower (trim k)).toList <:+: (asciiLower s).toList := by
  have hk' : '\x00' ∉ (trim k).toList := fun h => hk ((trim_sublist k).subset h)
  have hs' : beforeNul s = s.toList := takeWhile_ne_nul hs
  unfold KeywordFound
  dsimp only
  rw [if_neg hk', hs']
  simp [asciiLower]

/-- A keyword made of a NUL character alone is found in every text: the pattern the database
reads is a lone `%`. -/
theorem nul_keyword_found (s : String) : keywordMatches "\x00" s = true := by
  have htrim : (trim "\x00").toList = ['\x00'] := by decide
  rw [keywordMatches_iff_found, KeywordFound]
  rw [htrim, if_pos (List.mem_singleton_self _)]
  exact List.nil_suffix

end Nul

/-! ## Search results -/

section Results

variable (c : Tables) (t : TenantId) (k : String) (n : Nat)

/-- Table search answers the first `n` by full name of the tenant's tables and views whose name
or table comment matches the keyword, ordered by full name and kind. -/
theorem searchItems_first :
    FirstByKey ItemRow.fullName n ((c.relationalItems t).filter fun i =>
        keywordMatches k i.name || keywordMatches? k i.attributes.comment?)
      (c.searchItems t k n) ∧
    (c.searchItems t k n).Pairwise fun a b =>
      toLex (a.fullName, a.kind.name) ≤ toLex (b.fullName, b.kind.name) :=
  ⟨(firstByKey_takeLimit (fun _ _ => rfl) n _).perm (List.mergeSort_perm _ _).symm,
    sortOn_pairwise (fun _ _ => rfl) _⟩

/-- Column search answers the first `n` by table full name and ordinal of the columns of the
tenant's tables and views whose name or comment matches the keyword, in that order. -/
theorem searchFields_first :
    FirstByKey (fun m : FieldMatch => toLex (m.tableFullName, m.field.ordinal)) n
      ((c.relationalItems t).flatMap fun i =>
        (i.attributes.fields.filter fun f => keywordMatches k f.name || keywordMatches? k f.comment).map
          fun f => (⟨i.id, i.resource, i.fullName, f⟩ : FieldMatch))
      (c.searchFields t k n) ∧
    (c.searchFields t k n).Pairwise fun a b =>
      toLex (a.tableFullName, a.field.ordinal) ≤ toLex (b.tableFullName, b.field.ordinal) :=
  ⟨firstByKey_takeLimit (fun _ _ => rfl) n _,
    (sortOn_pairwise (fun _ _ => rfl) _).sublist (List.take_sublist _ _)⟩

end Results

end DataCatalog.Catalog
