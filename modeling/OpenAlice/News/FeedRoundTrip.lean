import OpenAlice.News.RssParser

/-!
# Feeds that are written and read

Items are written as RSS 2.0, each text escaped or as a section of `CDATA`, and read by
`parseRSSXml`.  An escaped text comes back trimmed.  So does the content of a section in a link or a
guid; in a title or a description it is read as HTML.

Texts that look like an entity behind their escaping, sections that are split, and tags of a feed in
a section are left out (`Readable`).
-/

namespace OpenAlice.News.Feed

open OpenAlice.Data
open OpenAlice.Transfer (utf16 utf16_append)

/-! ## Writing -/

inductive Wrap where
  | escaped
  | cdata
deriving DecidableEq

def escapeUnit (entities : List (String × Nat)) (u : Nat) : Text :=
  match entities.find? fun entity ↦ entity.2 == u with
  | some entity => utf16 entity.1
  | none => [u]

def escapeWith (entities : List (String × Nat)) (text : Text) : Text :=
  text.flatMap (escapeUnit entities)

def escapeXml (text : Text) : Text := escapeWith namedEntities text

/-- `]]>` is split over two sections. -/
def splitCdata (text : Text) : Text :=
  replaceAll (fun s ↦ (stripExact "]]>" s).map (utf16 "]]]]><![CDATA[>", ·)) text

structure Content where
  wrap : Wrap
  text : Text

def wrapText : Content → Text
  | ⟨.escaped, text⟩ => escapeXml text
  | ⟨.cdata, text⟩ => utf16 "<![CDATA[" ++ splitCdata text ++ utf16 "]]>"

def element (tag : String) (content : Text) : Text :=
  utf16 ("<" ++ tag ++ ">") ++ content ++ utf16 ("</" ++ tag ++ ">")

structure FeedItem where
  title : Content
  link : Content
  description : Content
  guid : Content

def FeedItem.elements (item : FeedItem) : List (String × Content) :=
  [("title", item.title), ("link", item.link), ("description", item.description),
    ("guid", item.guid)]

def writeElements (elements : List (String × Content)) : Text :=
  elements.flatMap fun e ↦ element e.1 (wrapText e.2)

def renderItem (item : FeedItem) : Text := element "item" (writeElements item.elements)

def renderFeed (items : List FeedItem) : Text :=
  utf16 "<rss version=\"2.0\">" ++ utf16 "<channel>" ++ items.flatMap renderItem ++
    (utf16 "</channel>" ++ utf16 "</rss>")

/-! ## What is read back -/

/-- Something that looks like an entity that is decoded behind `&amp;`. -/
def entityAt (s : Text) : Bool :=
  (namedEntities.tail.any fun entity ↦ (stripExact entity.1 s).isSome) ||
    (decimalEntity s).isSome || (hexEntity s).isSome

/-- Nothing in a text looks like an entity, but for `&amp;`. -/
def Entityless (text : Text) : Prop := ∀ s, s <:+ text → entityAt s = false

/-- What ends an item, and what is read in place of its description. -/
def blockMarks : List String := ["</item>", "</entry>", "<content:encoded"]

/-- Elements whose texts come back: what is escaped has nothing in it that looks like an entity, and
what is in a section has neither the end of a section in it, nor a tag that the parser would take for
one of the feed. -/
structure Readable (elements : List (String × Content)) : Prop where
  escaped : ∀ e ∈ elements, e.2.wrap = .escaped → Entityless (trim e.2.text)
  cdata : ∀ e ∈ elements, e.2.wrap = .cdata →
    Free id (utf16 "]]>") e.2.text ∧ ∀ mark ∈ blockMarks, Free lower (utf16 mark) e.2.text
  order : elements.Pairwise fun e later ↦
    e.2.wrap = .cdata → Free lower (utf16 ("<" ++ later.1)) e.2.text

def shownText : Content → Text
  | ⟨.escaped, text⟩ => trim text
  | ⟨.cdata, text⟩ => cleanText (trim text)

def readBack (item : FeedItem) : Text × Text × Option Text × Option Text :=
  (shownText item.title, shownText item.description, some (trim item.link.text),
    some (trim item.guid.text))

def ParsedFeedItem.written (item : ParsedFeedItem) : Text × Text × Option Text × Option Text :=
  (item.title, item.content, item.link, item.guid)

/-! ## Escaping -/

def IsEntity (entity : String × Nat) : Prop :=
  ∃ name, utf16 entity.1 = 38 :: (name ++ [59]) ∧ 38 ∉ name

theorem isEntity_of_mem {entity : String × Nat} (h : entity ∈ namedEntities) :
    IsEntity entity := by
  simp only [namedEntities, List.mem_cons, List.not_mem_nil, or_false] at h
  rcases h with rfl | rfl | rfl | rfl | rfl
  · exact ⟨[97, 109, 112], by decide, by decide⟩
  · exact ⟨[108, 116], by decide, by decide⟩
  · exact ⟨[103, 116], by decide, by decide⟩
  · exact ⟨[113, 117, 111, 116], by decide, by decide⟩
  · exact ⟨[97, 112, 111, 115], by decide, by decide⟩

section Escape

variable {entities : List (String × Nat)} {entity : String × Nat} {u : Nat} {text : Text}

theorem escapeUnit_cases (entities : List (String × Nat)) (u : Nat) :
    (escapeUnit entities u = [u] ∧ ∀ entity ∈ entities, entity.2 ≠ u) ∨
      ∃ entity ∈ entities, entity.2 = u ∧ escapeUnit entities u = utf16 entity.1 := by
  rw [escapeUnit]
  cases h : entities.find? fun entity ↦ entity.2 == u with
  | none =>
    refine .inl ⟨rfl, fun entity hentity heq ↦ ?_⟩
    exact List.find?_eq_none.mp h entity hentity (beq_iff_eq.mpr heq)
  | some entity =>
    have heq := List.find?_some (p := fun entity : String × Nat ↦ entity.2 == u) h
    exact .inr ⟨entity, List.mem_of_find?_eq_some h, beq_iff_eq.mp heq, rfl⟩

theorem strip_escapeWith (hentities : ∀ entity ∈ entities, IsEntity entity) {name : Text}
    (hname : 38 ∉ name) (h : strip id name text = none) :
    strip id name (escapeWith entities text) = none := by
  induction text generalizing name with
  | nil => exact h
  | cons u text ih =>
    cases name with
    | nil => cases h
    | cons b name =>
      rw [escapeWith, List.flatMap_cons]
      rcases escapeUnit_cases entities u with ⟨hunit, -⟩ | ⟨entity, hentity, -, hunit⟩
      · rw [strip] at h
        rw [hunit, List.singleton_append, strip]
        split_ifs at h ⊢
        · exact ih (fun hmem ↦ hname (List.mem_cons_of_mem b hmem)) h
        · rfl
      · obtain ⟨rest, hrest, -⟩ := hentities entity hentity
        rw [hunit, hrest, List.cons_append]
        exact strip_cons_of_ne fun heq ↦ hname (heq ▸ List.mem_cons_self)

theorem namedEntity_eq_none {s : Text} (out : Text) (h : strip id (utf16 entity.1) s = none) :
    namedEntity entity.1 out s = none := by
  rw [namedEntity, stripExact, h, Option.map_none]

theorem namedEntity_of_ne {s : Text} (hentity : IsEntity entity) (out : Text) (h : u ≠ 38) :
    namedEntity entity.1 out (u :: s) = none := by
  obtain ⟨name, hname, -⟩ := hentity
  refine namedEntity_eq_none out ?_
  rw [hname]
  exact strip_cons_of_ne h

theorem replaceAll_escapeWith {rest : List (String × Nat)} (hentity : IsEntity entity)
    (hrest : ∀ other ∈ rest, IsEntity other ∧ other.2 ≠ entity.2 ∧
      ∀ s, strip id (utf16 entity.1) (utf16 other.1 ++ s) = none)
    (htext : entity.2 = 38 ∨ Free id (utf16 entity.1) text) :
    replaceAll (namedEntity entity.1 [entity.2]) (escapeWith (entity :: rest) text) =
      escapeWith rest text := by
  have hall : ∀ other ∈ entity :: rest, IsEntity other :=
    List.forall_mem_cons.mpr ⟨hentity, fun other hother ↦ (hrest other hother).1⟩
  induction text with
  | nil =>
    rw [escapeWith, List.flatMap_nil, replaceAll]
    rfl
  | cons u text ih =>
    have htail := ih (htext.imp_right fun hfree ↦ hfree.suffix (List.suffix_cons u text))
    rw [escapeWith, List.flatMap_cons, ← escapeWith]
    conv_rhs => rw [escapeWith, List.flatMap_cons, ← escapeWith]
    obtain ⟨name, hname, hamp⟩ := hentity
    by_cases hu : entity.2 = u
    · -- the unit of this entity
      have hunit : escapeUnit (entity :: rest) u = utf16 entity.1 := by
        simp only [escapeUnit, List.find?_cons, beq_iff_eq.mpr hu]
      have hnone : escapeUnit rest u = [u] := by
        rcases escapeUnit_cases rest u with ⟨hunit, -⟩ | ⟨other, hother, heq, -⟩
        · exact hunit
        · exact absurd (heq.trans hu.symm) (hrest other hother).2.1
      have hmatch : namedEntity entity.1 [entity.2]
          (38 :: (name ++ [59] ++ escapeWith (entity :: rest) text)) =
            some ([entity.2], escapeWith (entity :: rest) text) := by
        rw [namedEntity, stripExact, ← List.cons_append, ← hname,
          strip_append (List.map_id _), Option.map_some]
      rw [hunit, hnone, hname, List.cons_append, replaceAll_of_some hmatch, htail, hu]
      rw [List.length_append]
      exact Nat.le_add_left _ _
    · have hsame : escapeUnit (entity :: rest) u = escapeUnit rest u := by
        simp only [escapeUnit, List.find?_cons, beq_false_of_ne hu]
      rw [hsame]
      rcases escapeUnit_cases rest u with ⟨hunit, -⟩ | ⟨other, hother, -, hunit⟩
      · -- a unit that is left as it is
        rw [hunit, List.singleton_append, List.singleton_append, ← htail]
        refine replaceAll_of_none ?_
        by_cases h38 : u = 38
        · have hfree := htext.resolve_left fun heq ↦ hu (heq.trans h38.symm)
          have hstrip := hfree _ List.suffix_rfl
          refine namedEntity_eq_none _ ?_
          have hid : id 38 = 38 := rfl
          rw [hname, h38, strip_cons_of_eq hid] at hstrip ⊢
          refine strip_escapeWith hall ?_ hstrip
          rw [List.mem_append, not_or]
          exact ⟨hamp, by decide⟩
        · exact namedEntity_of_ne ⟨name, hname, hamp⟩ _ h38
      · -- another entity
        rw [hunit]
        obtain ⟨⟨other', hother', hamp'⟩, -, hdiffers⟩ := hrest other hother
        rw [← htail]
        refine Clear.replaceAll_append (fun t hne ht r ↦ ?_) _
        rw [hother'] at ht
        rcases List.suffix_cons_iff.mp ht with rfl | ht
        · exact namedEntity_eq_none _ (hother' ▸ hdiffers _)
        obtain ⟨v, t, rfl⟩ := List.exists_cons_of_ne_nil hne
        refine namedEntity_of_ne ⟨name, hname, hamp⟩ _ ?_
        rintro rfl
        have hmem := ht.subset List.mem_cons_self
        rw [List.mem_append] at hmem
        exact hmem.elim hamp' (by decide)

theorem decodeNamed_escapeWith (hentities : ∀ entity ∈ entities, IsEntity entity)
    (hclash : entities.Pairwise fun entity other ↦
      other.2 ≠ entity.2 ∧ clash id (utf16 entity.1) (utf16 other.1) = true)
    (htext : ∀ entity ∈ entities, entity.2 = 38 ∨ Free id (utf16 entity.1) text) :
    decodeNamed entities (escapeWith entities text) = text := by
  induction entities with
  | nil =>
    rw [decodeNamed, List.foldl_nil, escapeWith]
    exact List.flatMap_singleton' text
  | cons entity rest ih =>
    obtain ⟨hfirst, hrest⟩ := List.pairwise_cons.mp hclash
    rw [List.forall_mem_cons] at hentities htext
    have hone : replaceAll (namedEntity entity.1 [entity.2]) (escapeWith (entity :: rest) text) =
        escapeWith rest text :=
      replaceAll_escapeWith hentities.1 (fun other hother ↦ ⟨hentities.2 other hother,
        (hfirst other hother).1, strip_of_clash (hfirst other hother).2⟩) htext.1
    rw [decodeNamed, List.foldl_cons, hone]
    exact ih hentities.2 hrest htext.2

/-- **Decoding undoes escaping**, where nothing looks like an entity. -/
theorem decode_escapeXml (h : Entityless text) : decodeXmlEntities (escapeXml text) = text := by
  have hparts : ∀ s, s <:+ text →
      (∀ entity ∈ namedEntities.tail, strip id (utf16 entity.1) s = none) ∧
        decimalEntity s = none ∧ hexEntity s = none := by
    intro s hs
    have hnone := h s hs
    rw [entityAt, Bool.or_eq_false_iff, Bool.or_eq_false_iff, List.any_eq_false] at hnone
    obtain ⟨⟨hnamed, hdecimal⟩, hhex⟩ := hnone
    refine ⟨fun entity hentity ↦ ?_, Option.not_isSome_iff_eq_none.mp (by simp [hdecimal]),
      Option.not_isSome_iff_eq_none.mp (by simp [hhex])⟩
    exact Option.not_isSome_iff_eq_none.mp (hnamed entity hentity)
  have hnamed : decodeNamed namedEntities (escapeXml text) = text := by
    refine decodeNamed_escapeWith (fun entity ↦ isEntity_of_mem) (by decide) ?_
    refine List.forall_mem_cons.mpr ⟨.inl rfl, fun entity hentity ↦ .inr fun s hs ↦ ?_⟩
    exact (hparts s hs).1 entity hentity
  rw [decodeXmlEntities, hnamed, replaceAll_eq_self fun s hs ↦ (hparts s hs).2.1,
    replaceAll_eq_self fun s hs ↦ (hparts s hs).2.2]

theorem escapeUnit_facts (u : Nat) :
    (60 ∉ escapeUnit namedEntities u ∧ 62 ∉ escapeUnit namedEntities u) ∧
    (isSpace u = true → escapeUnit namedEntities u = [u]) ∧
      (isSpace u = false → trim (escapeUnit namedEntities u) = escapeUnit namedEntities u ∧
        escapeUnit namedEntities u ≠ []) := by
  rcases escapeUnit_cases namedEntities u with ⟨hunit, hnot⟩ | ⟨entity, hentity, rfl, hunit⟩
  · rw [hunit, List.mem_singleton]
    refine ⟨⟨hnot ("&lt;", 60) (by decide), ?_⟩, fun _ ↦ rfl, fun hink ↦ ⟨?_, ?_⟩⟩
    · rw [List.mem_singleton]
      exact hnot ("&gt;", 62) (by decide)
    · exact trimBy_of_ends hink hink ⟨[], rfl⟩ ⟨[], rfl⟩
    · exact List.cons_ne_nil u []
  · rw [hunit]
    simp only [namedEntities, List.mem_cons, List.not_mem_nil, or_false] at hentity
    rcases hentity with rfl | rfl | rfl | rfl | rfl <;> decide

theorem lt_notMem_escapeXml (text : Text) : 60 ∉ escapeXml text := by
  rw [escapeXml, escapeWith, List.mem_flatMap]
  rintro ⟨u, -, hu⟩
  exact (escapeUnit_facts u).1.1 hu

theorem gt_notMem_escapeXml (text : Text) : 62 ∉ escapeXml text := by
  rw [escapeXml, escapeWith, List.mem_flatMap]
  rintro ⟨u, -, hu⟩
  exact (escapeUnit_facts u).1.2 hu

theorem trim_escapeXml (text : Text) : trim (escapeXml text) = escapeXml (trim text) :=
  trimBy_flatMap (fun u ↦ (escapeUnit_facts u).2.1) (fun u ↦ (escapeUnit_facts u).2.2) text

theorem trim_trim (text : Text) : trim (trim text) = trim text := trimBy_trimBy isSpace text

theorem stripHtml_of_notMem (h : 60 ∉ text) : stripHtml text = trim text := by
  have hself : replaceAll htmlTag text = text := by
    refine replaceAll_eq_self fun s hs ↦ ?_
    rw [htmlTag.eq_def]
    split
    · exact absurd (hs.subset List.mem_cons_self) h
    · rfl
  rw [stripHtml, hself]

theorem cleanText_escapeXml (h : Entityless (trim text)) :
    cleanText (trim (escapeXml text)) = trim text := by
  have hlt : 60 ∉ trim (escapeXml text) := by
    rw [trim_escapeXml]
    exact lt_notMem_escapeXml _
  rw [cleanText, stripHtml_of_notMem hlt, trim_trim, trim_escapeXml, decode_escapeXml h]

end Escape

/-! ## Marks -/

/-- A text that is found by its bracket, and that no section begins with or ends in. -/
structure IsMark (mark : Text) : Prop where
  head : mark.head? = some 60
  notMem : 93 ∉ mark
  cdata : clash lower mark (utf16 "<![CDATA[") = true

section Marks

variable {mark text rest : Text} {tag : String} {content : Content} {u : Nat}

theorem lower_eq_iff {b : Nat} (hb : b < 65 ∨ 90 < b ∧ b < 97) : lower u = b ↔ u = b := by
  rw [lower]
  split_ifs with h
  · omega
  · rfl

theorem lower_ne {b : Nat} (hb : b < 65 ∨ 90 < b ∧ b < 97) (h : b ∉ text) :
    ∀ u ∈ text, lower u ≠ b := by
  intro u hu heq
  exact h ((lower_eq_iff hb).mp heq ▸ hu)

theorem IsMark.clear_of_notMem (h : IsMark mark) (htext : 60 ∉ text) :
    Clear (strip lower mark) text := by
  obtain ⟨rest, rfl⟩ := List.head?_eq_some_iff.mp h.head
  exact clear_of_forall (lower_ne (by decide) htext)

theorem IsMark.clear_of_clash (h : IsMark mark) (hclash : clash lower mark (60 :: rest) = true)
    (hrest : 60 ∉ rest) : Clear (strip lower mark) (60 :: rest) := by
  obtain ⟨mark, rfl⟩ := List.head?_eq_some_iff.mp h.head
  exact Data.clear_of_clash hclash (lower_ne (by decide) hrest)

theorem splitCdata_of_free (h : Free id (utf16 "]]>") text) : splitCdata text = text := by
  refine replaceAll_eq_self fun s hs ↦ ?_
  rw [stripExact, h s hs, Option.map_none]

theorem IsMark.clear_wrapText (h : IsMark mark) (hcdata : content.wrap = .cdata →
      Free id (utf16 "]]>") content.text ∧ Free lower mark content.text) :
    Clear (strip lower mark) (wrapText content) := by
  obtain ⟨wrap, text⟩ := content
  cases wrap with
  | escaped => exact h.clear_of_notMem (lt_notMem_escapeXml text)
  | cdata =>
    obtain ⟨hend, hfree⟩ := hcdata rfl
    have hopen : utf16 "<![CDATA[" = 60 :: [33, 91, 67, 68, 65, 84, 65, 91] := by decide
    have hclose : utf16 "]]>" = [93] ++ [93, 62] := by decide
    have hnot : lower 93 ∉ mark := h.notMem
    have hstart : Clear (strip lower mark) (utf16 "<![CDATA[") := by
      have hclash := h.cdata
      rw [hopen] at hclash ⊢
      exact h.clear_of_clash hclash (by decide)
    rw [wrapText, splitCdata_of_free hend, hclose, List.append_assoc, ← List.append_assoc text]
    exact hstart.append ((hfree.clear hnot).append (h.clear_of_notMem (by decide)))

theorem opening_eq (tag : String) : utf16 ("<" ++ tag ++ ">") = 60 :: (utf16 tag ++ [62]) := by
  rw [utf16_append, utf16_append]
  rfl

theorem closing_eq (tag : String) :
    utf16 ("</" ++ tag ++ ">") = 60 :: 47 :: (utf16 tag ++ [62]) := by
  rw [utf16_append, utf16_append]
  rfl

theorem IsMark.clear_element (h : IsMark mark)
    (hopen : clash lower mark (utf16 ("<" ++ tag ++ ">")) = true)
    (hclose : clash lower mark (utf16 ("</" ++ tag ++ ">")) = true) (htag : 60 ∉ utf16 tag)
    (hcontent : Clear (strip lower mark) (wrapText content)) :
    Clear (strip lower mark) (element tag (wrapText content)) := by
  have hname : 60 ∉ utf16 tag ++ [62] := by
    rw [List.mem_append, not_or]
    exact ⟨htag, by decide⟩
  rw [opening_eq] at hopen
  rw [closing_eq] at hclose
  rw [element, opening_eq, closing_eq]
  refine ((h.clear_of_clash hopen hname).append hcontent).append (h.clear_of_clash hclose ?_)
  exact fun hmem ↦ (List.mem_cons.mp hmem).elim (by decide) hname

/-! ## Sections -/

theorem free_sectionEnd (h : Free id (utf16 "]]>") text) : Free lower (utf16 "]]>") text := by
  have hpunct : ∀ b ∈ utf16 "]]>", b < 65 ∨ 90 < b ∧ b < 97 := by decide
  intro t ht
  have hcongr : strip lower (utf16 "]]>") t = strip id (utf16 "]]>") t :=
    strip_congr (fun b hb a ↦ lower_eq_iff (hpunct b hb)) t
  rw [hcongr]
  exact h t ht

theorem stripText_sectionEnd (h : Free id (utf16 "]]>") text) (hne : text ≠ []) (r : Text) :
    stripText "]]>" (text ++ (utf16 "]]>" ++ r)) = none := by
  have hend : utf16 "]]>" = [93, 93, 62] := by decide
  have hnone : strip lower [93, 93, 62] text = none := hend ▸ free_sectionEnd h _ List.suffix_rfl
  rw [stripText, hend]
  match text, hne, hnone with
  | [u], _, _ =>
    by_cases hu : lower u = 93
    · rw [List.singleton_append, strip_cons_of_eq hu]
      rfl
    · exact strip_cons_of_ne hu
  | [u, v], _, _ =>
    by_cases hu : lower u = 93
    · by_cases hv : lower v = 93
      · rw [List.cons_append, strip_cons_of_eq hu, List.singleton_append, strip_cons_of_eq hv]
        rfl
      · rw [List.cons_append, strip_cons_of_eq hu]
        exact strip_cons_of_ne hv
    · exact strip_cons_of_ne hu
  | u :: v :: w :: text, _, hnone =>
    simp only [strip, List.cons_append] at hnone ⊢
    split_ifs at hnone ⊢ <;> rfl

theorem closeCdata_eq_none (h : stripText "]]>" text = none) : closeCdata tag text = none := by
  rw [closeCdata, h]

theorem clear_closeCdata (h : 93 ∉ text) : Clear (closeCdata tag) text := by
  have hend : utf16 "]]>" = [93, 93, 62] := by decide
  have hclear : Clear (stripText "]]>") text := by
    rw [show stripText "]]>" = strip lower [93, 93, 62] from congrArg (strip lower) hend]
    exact clear_of_forall (lower_ne (by decide) h)
  exact hclear.mono fun r ↦ closeCdata_eq_none

/-- The name of an element: letters in lower case. -/
structure IsTag (tag : String) : Prop where
  lower_eq : (utf16 tag).map lower = utf16 tag
  notMem : 60 ∉ utf16 tag ∧ 62 ∉ utf16 tag ∧ 93 ∉ utf16 tag

def itemTags : List String := ["title", "link", "description", "guid"]

theorem isTag_of_mem (h : tag ∈ itemTags) : IsTag tag := by
  have hall : ∀ tag ∈ itemTags, (utf16 tag).map lower = utf16 tag ∧
      60 ∉ utf16 tag ∧ 62 ∉ utf16 tag ∧ 93 ∉ utf16 tag := by
    decide
  obtain ⟨hlower, hnot⟩ := hall tag h
  exact ⟨hlower, hnot⟩

theorem openTag_opening (h : IsTag tag) (r : Text) :
    openTag tag (utf16 ("<" ++ tag ++ ">") ++ r) = some r := by
  have hmap : (60 :: utf16 tag).map lower = utf16 ("<" ++ tag) := by
    rw [utf16_append, List.map_cons, h.lower_eq]
    rfl
  rw [openTag, opening_eq, ← List.cons_append, List.append_assoc, stripText, strip_append hmap]
  rfl

theorem closeTag_closing (h : IsTag tag) (r : Text) :
    closeTag tag (utf16 ("</" ++ tag ++ ">") ++ r) = some r := by
  refine strip_append ?_ r
  rw [closing_eq, List.map_cons, List.map_cons, List.map_append, h.lower_eq]
  rfl

theorem closeCdata_closing (h : IsTag tag) (r : Text) :
    closeCdata tag (utf16 "]]>" ++ (utf16 ("</" ++ tag ++ ">") ++ r)) = some r := by
  have hmap : (utf16 "]]>").map lower = utf16 "]]>" := by decide
  have hspace : (utf16 ("</" ++ tag ++ ">") ++ r).dropWhile isSpace =
      utf16 ("</" ++ tag ++ ">") ++ r := by
    rw [closing_eq]
    rfl
  rw [closeCdata, stripText, strip_append hmap]
  simp only [hspace]
  exact closeTag_closing h r

theorem cdataElement_section (h : IsTag tag) (hend : Free id (utf16 "]]>") text) (r : Text) :
    cdataElement tag (element tag (wrapText ⟨.cdata, text⟩) ++ r) = some text := by
  have hmap : (utf16 "<![CDATA[").map lower = utf16 "<![cdata[" := by decide
  have hspace : ∀ s, (utf16 "<![CDATA[" ++ s).dropWhile isSpace = utf16 "<![CDATA[" ++ s := by
    have hopen : utf16 "<![CDATA[" = 60 :: [33, 91, 67, 68, 65, 84, 65, 91] := by decide
    intro s
    rw [hopen]
    rfl
  have hupTo : upTo (closeCdata tag)
      (text ++ (utf16 "]]>" ++ (utf16 ("</" ++ tag ++ ">") ++ r))) = some (text, r) := by
    refine upTo_append (fun t hne ht ↦ ?_) (closeCdata_closing h r)
    exact closeCdata_eq_none (stripText_sectionEnd (fun q hq ↦ hend q (hq.trans ht)) hne _)
  rw [element, wrapText, splitCdata_of_free hend, cdataElement]
  simp only [List.append_assoc, openTag_opening h, hspace]
  rw [stripText, strip_append hmap]
  simp only [hupTo, Option.map_some]

theorem cdataElement_escaped (h : IsTag tag) (text r : Text) :
    cdataElement tag (element tag (wrapText ⟨.escaped, text⟩) ++ r) = none := by
  have hnone : ∀ s : Text, 60 ∉ s →
      stripText "<![cdata[" ((s ++ (utf16 ("</" ++ tag ++ ">") ++ r)).dropWhile isSpace) =
        none := by
    have hopen : utf16 "<![cdata[" = 60 :: 33 :: [91, 99, 100, 97, 116, 97, 91] := by decide
    intro s hs
    rw [stripText, hopen]
    induction s with
    | nil =>
      rw [List.nil_append, closing_eq]
      rfl
    | cons u s ih =>
      rw [List.mem_cons, not_or] at hs
      rw [List.cons_append, List.dropWhile_cons]
      split_ifs
      · exact ih hs.2
      · exact strip_cons_of_ne fun heq ↦ hs.1 ((lower_eq_iff (by decide)).mp heq).symm
  rw [element, wrapText, cdataElement]
  simp only [List.append_assoc, openTag_opening h, hnone _ (lt_notMem_escapeXml text)]

theorem plainElement_escaped (h : IsTag tag) (text r : Text) :
    plainElement tag (element tag (wrapText ⟨.escaped, text⟩) ++ r) = some (escapeXml text) := by
  have hclose : utf16 ("</" ++ tag ++ ">") = 60 :: 47 :: (utf16 tag ++ [62]) := closing_eq tag
  have hclear : Clear (closeTag tag) (escapeXml text) := by
    rw [show closeTag tag = strip lower (60 :: 47 :: (utf16 tag ++ [62])) from
      congrArg (strip lower) hclose]
    exact clear_of_forall (lower_ne (by decide) (lt_notMem_escapeXml text))
  have hupTo : upTo (closeTag tag) (escapeXml text ++ (utf16 ("</" ++ tag ++ ">") ++ r)) =
      some (escapeXml text, r) :=
    upTo_append (fun t hne ht ↦ hclear t hne ht _) (closeTag_closing h r)
  rw [element, wrapText, plainElement]
  simp only [List.append_assoc, openTag_opening h, hupTo, Option.map_some]

/-! ## Extraction -/

theorem openTag_eq_none (h : stripText ("<" ++ tag) text = none) : openTag tag text = none := by
  rw [openTag, h]

theorem cdataElement_eq_none (h : openTag tag text = none) : cdataElement tag text = none := by
  rw [cdataElement, h]

theorem plainElement_eq_none (h : openTag tag text = none) : plainElement tag text = none := by
  rw [plainElement, h]

theorem openTag_suffix {r : Text} (h : openTag tag text = some r) : r <:+ text := by
  rw [openTag] at h
  split at h
  · cases h
  rename_i s hs
  split at h
  · cases h
  rename_i u rest hrest
  obtain rfl : rest = r := Option.some.inj h
  have htail : rest <:+ s.dropWhile (· != 62) := hrest ▸ List.suffix_cons u rest
  exact (htail.trans (List.dropWhile_suffix _)).trans (strip_suffix hs)

theorem cdataElement_of_close (h : ∀ t, t <:+ text → closeCdata tag t = none) :
    cdataElement tag text = none := by
  rw [cdataElement]
  split
  · rfl
  rename_i s hs
  split
  · rfl
  rename_i r hr
  have hsuffix : r <:+ text :=
    ((strip_suffix hr).trans (List.dropWhile_suffix _)).trans (openTag_suffix hs)
  rw [upTo_eq_none fun t ht ↦ h t (ht.trans hsuffix), Option.map_none]

theorem clear_sectionEnd {other : String}
    (hclash : clash lower (utf16 ("</" ++ tag ++ ">")) (utf16 ("</" ++ other ++ ">")) = true)
    (hclosing : Clear (closeCdata tag) (utf16 ("</" ++ other ++ ">"))) :
    Clear (closeCdata tag) (utf16 "]]>" ++ utf16 ("</" ++ other ++ ">")) := by
  have hend : utf16 "]]>" = [93, 93, 62] := by decide
  have hmap : (utf16 "]]>").map lower = utf16 "]]>" := by decide
  intro t hne ht r
  rw [hend, List.cons_append, List.cons_append, List.cons_append, List.nil_append] at ht
  rcases List.suffix_cons_iff.mp ht with rfl | ht
  · have hspace : (utf16 ("</" ++ other ++ ">") ++ r).dropWhile isSpace =
        utf16 ("</" ++ other ++ ">") ++ r := by
      rw [closing_eq]
      rfl
    have hafter : stripText "]]>" (utf16 "]]>" ++ (utf16 ("</" ++ other ++ ">") ++ r)) =
        some (utf16 ("</" ++ other ++ ">") ++ r) := strip_append hmap _
    rw [hend] at hafter
    rw [closeCdata, show stripText "]]>" (_ ++ r) = _ from hafter]
    simp only [hspace]
    exact strip_of_clash hclash r
  rcases List.suffix_cons_iff.mp ht with rfl | ht
  · refine closeCdata_eq_none ?_
    rw [stripText, hend]
    rfl
  rcases List.suffix_cons_iff.mp ht with rfl | ht
  · refine closeCdata_eq_none ?_
    rw [stripText, hend]
    rfl
  · exact hclosing t hne ht r

theorem clear_closeCdata_element {other : String} (hother : IsTag other)
    (hclash : clash lower (utf16 ("</" ++ tag ++ ">")) (utf16 ("</" ++ other ++ ">")) = true)
    (hcontent : content.wrap = .cdata → Free id (utf16 "]]>") content.text) :
    Clear (closeCdata tag) (element other (wrapText content)) := by
  have hname : 93 ∉ utf16 other ++ [62] := by
    rw [List.mem_append, not_or]
    exact ⟨hother.notMem.2.2, by decide⟩
  have hopening : Clear (closeCdata tag) (utf16 ("<" ++ other ++ ">")) := by
    rw [opening_eq]
    exact clear_closeCdata fun hmem ↦ (List.mem_cons.mp hmem).elim (by decide) hname
  have hclosing : Clear (closeCdata tag) (utf16 ("</" ++ other ++ ">")) := by
    rw [closing_eq]
    refine clear_closeCdata fun hmem ↦ (List.mem_cons.mp hmem).elim (by decide) fun hmem ↦ ?_
    exact (List.mem_cons.mp hmem).elim (by decide) hname
  have hend : utf16 "]]>" = [93, 93, 62] := by decide
  obtain ⟨wrap, text⟩ := content
  rw [element, List.append_assoc]
  refine hopening.append ?_
  cases wrap with
  | escaped =>
    refine clear_append_of (fun t hne ht r ↦ closeCdata_eq_none ?_) hclosing
    have hfree : Free lower (utf16 "]]>") (escapeXml text) := by
      exact free_of_forall (b := 62) (by decide) (lower_ne (by decide) (gt_notMem_escapeXml text))
    rw [stripText, closing_eq, List.cons_append]
    exact strip_joint (by decide) (hfree t ht)
  | cdata =>
    have hfree := hcontent rfl
    have hopen : 93 ∉ utf16 "<![CDATA[" := by decide
    rw [wrapText, splitCdata_of_free hfree, List.append_assoc, List.append_assoc]
    refine (clear_closeCdata hopen).append (clear_append_of (fun t hne ht r ↦ ?_) ?_)
    · rw [List.append_assoc]
      exact closeCdata_eq_none (stripText_sectionEnd (fun q hq ↦ hfree q (hq.trans ht)) hne _)
    · exact clear_sectionEnd hclash hclosing

end Marks

/-! ## Elements -/

section Elements

variable {elements : List (String × Content)}

theorem isMark_of_mem {mark : String} (h : mark ∈ blockMarks ++ itemTags.map ("<" ++ ·)) :
    IsMark (utf16 mark) := by
  have hall : ∀ mark ∈ blockMarks ++ itemTags.map ("<" ++ ·), (utf16 mark).head? = some 60 ∧
      93 ∉ utf16 mark ∧ clash lower (utf16 mark) (utf16 "<![CDATA[") = true := by
    decide
  obtain ⟨hhead, hnot, hcdata⟩ := hall mark h
  exact ⟨hhead, hnot, hcdata⟩

theorem clash_tags : ∀ tag ∈ itemTags, ∀ other ∈ itemTags, tag ≠ other →
    clash lower (utf16 ("<" ++ tag)) (utf16 ("<" ++ other ++ ">")) = true ∧
      clash lower (utf16 ("</" ++ tag ++ ">")) (utf16 ("</" ++ other ++ ">")) = true := by
  decide

theorem clash_closing : ∀ tag ∈ itemTags, ∀ other ∈ itemTags,
    clash lower (utf16 ("<" ++ tag)) (utf16 ("</" ++ other ++ ">")) = true := by
  decide

theorem clash_block : ∀ mark ∈ blockMarks, ∀ tag ∈ itemTags,
    clash lower (utf16 mark) (utf16 ("<" ++ tag ++ ">")) = true ∧
      clash lower (utf16 mark) (utf16 ("</" ++ tag ++ ">")) = true := by
  decide

theorem clear_block (h : Readable elements) (htags : ∀ e ∈ elements, e.1 ∈ itemTags)
    (mark : String) (hmark : mark ∈ blockMarks) :
    Clear (strip lower (utf16 mark)) (writeElements elements) := by
  refine clear_flatMap fun e he ↦ ?_
  obtain ⟨hopen, hclose⟩ := clash_block mark hmark e.1 (htags e he)
  have hisMark := isMark_of_mem (List.mem_append_left _ hmark)
  refine hisMark.clear_element hopen hclose (isTag_of_mem (htags e he)).notMem.1 ?_
  refine hisMark.clear_wrapText fun hcdata ↦ ?_
  obtain ⟨hend, hfree⟩ := h.cdata e he hcdata
  exact ⟨hend, hfree mark hmark⟩

variable {e : String × Content}

theorem clear_before {before after : List (String × Content)}
    (h : Readable (before ++ e :: after)) (htags : ∀ b ∈ before ++ e :: after, b.1 ∈ itemTags)
    (hnodup : ((before ++ e :: after).map Prod.fst).Nodup) :
    Clear (openTag e.1) (writeElements before) := by
  have hmem : e ∈ before ++ e :: after := List.mem_append_right _ List.mem_cons_self
  have hisMark : IsMark (utf16 ("<" ++ e.1)) :=
    isMark_of_mem (List.mem_append_right _ (List.mem_map_of_mem (htags e hmem)))
  have hclear : Clear (stripText ("<" ++ e.1)) (writeElements before) := by
    refine clear_flatMap fun b hb ↦ ?_
    have hbmem : b ∈ before ++ e :: after := List.mem_append_left _ hb
    have hne : e.1 ≠ b.1 := by
      rw [List.map_append, List.map_cons, List.nodup_append] at hnodup
      exact (hnodup.2.2 b.1 (List.mem_map_of_mem hb) e.1 List.mem_cons_self).symm
    have horder := (List.pairwise_append.mp h.order).2.2 b hb e List.mem_cons_self
    refine hisMark.clear_element (clash_tags e.1 (htags e hmem) b.1 (htags b hbmem) hne).1
      (clash_closing e.1 (htags e hmem) b.1 (htags b hbmem))
      (isTag_of_mem (htags b hbmem)).notMem.1 ?_
    exact hisMark.clear_wrapText fun hcdata ↦ ⟨(h.cdata b hbmem hcdata).1, horder hcdata⟩
  exact hclear.mono fun r ↦ openTag_eq_none

theorem search_cdataElement_after {before after : List (String × Content)}
    (h : Readable (before ++ e :: after)) (htags : ∀ b ∈ before ++ e :: after, b.1 ∈ itemTags)
    (hnodup : ((before ++ e :: after).map Prod.fst).Nodup) :
    search (cdataElement e.1) (writeElements after) = none := by
  have hmem : e ∈ before ++ e :: after := List.mem_append_right _ List.mem_cons_self
  have hclear : Clear (closeCdata e.1) (writeElements after) := by
    refine clear_flatMap fun a ha ↦ ?_
    have hamem : a ∈ before ++ e :: after := List.mem_append_right _ (List.mem_cons_of_mem e ha)
    have hne : e.1 ≠ a.1 := by
      rw [List.map_append, List.map_cons, List.nodup_append] at hnodup
      rintro heq
      exact (List.nodup_cons.mp hnodup.2.1).1 (heq ▸ List.mem_map_of_mem ha)
    exact clear_closeCdata_element (isTag_of_mem (htags a hamem))
      (clash_tags e.1 (htags e hmem) a.1 (htags a hamem) hne).2 fun hcdata ↦
        (h.cdata a hamem hcdata).1
  have hnil : closeCdata e.1 [] = none := rfl
  exact search_eq_none fun t ht ↦ cdataElement_of_close fun q hq ↦ hclear.eq_none hnil (hq.trans ht)

theorem search_cdataElement_escaped {tag : String} (htag : tag ∈ itemTags) (text r : Text) :
    search (cdataElement tag) (element tag (wrapText ⟨.escaped, text⟩) ++ r) =
      search (cdataElement tag) r := by
  have hisTag := isTag_of_mem htag
  have hisMark : IsMark (utf16 ("<" ++ tag)) :=
    isMark_of_mem (List.mem_append_right _ (List.mem_map_of_mem htag))
  have hname : 60 ∉ utf16 tag ++ [62] := by
    rw [List.mem_append, not_or]
    exact ⟨hisTag.notMem.1, by decide⟩
  have hinside : Clear (stripText ("<" ++ tag))
      (utf16 tag ++ [62] ++ escapeXml text ++ utf16 ("</" ++ tag ++ ">")) := by
    have hclose := clash_closing tag htag tag htag
    rw [closing_eq] at hclose ⊢
    refine ((hisMark.clear_of_notMem hname).append
      (hisMark.clear_of_notMem (lt_notMem_escapeXml text))).append
        (hisMark.clear_of_clash hclose ?_)
    exact fun hmem ↦ (List.mem_cons.mp hmem).elim (by decide) hname
  have hclear : Clear (cdataElement tag)
      (utf16 tag ++ [62] ++ escapeXml text ++ utf16 ("</" ++ tag ++ ">")) :=
    hinside.mono fun r hr ↦ cdataElement_eq_none (openTag_eq_none hr)
  have hnone := cdataElement_escaped hisTag text r
  have helement : element tag (wrapText ⟨.escaped, text⟩) =
      60 :: (utf16 tag ++ [62] ++ escapeXml text ++ utf16 ("</" ++ tag ++ ">")) := by
    rw [element, wrapText, opening_eq, List.cons_append, List.cons_append]
  rw [helement, List.cons_append] at hnone ⊢
  rw [search, hnone, Option.none_or, hclear.search_append]

theorem search_element (h : Readable elements) (htags : ∀ e ∈ elements, e.1 ∈ itemTags)
    (hnodup : (elements.map Prod.fst).Nodup) (he : e ∈ elements) :
    (e.2.wrap = .cdata → search (cdataElement e.1) (writeElements elements) = some e.2.text) ∧
      (e.2.wrap = .escaped → search (cdataElement e.1) (writeElements elements) = none ∧
        search (plainElement e.1) (writeElements elements) = some (escapeXml e.2.text)) := by
  obtain ⟨before, after, rfl⟩ := List.append_of_mem he
  have hbefore := clear_before h htags hnodup
  have hsplit : writeElements (before ++ e :: after) = writeElements before ++
      (element e.1 (wrapText e.2) ++ writeElements after) := by
    rw [writeElements, List.flatMap_append, List.flatMap_cons]
    rfl
  have hafter := search_cdataElement_after h htags hnodup
  have htag := htags e he
  rw [hsplit, (hbefore.mono fun r ↦ cdataElement_eq_none).search_append,
    (hbefore.mono fun r ↦ plainElement_eq_none).search_append]
  obtain ⟨tag, wrap, text⟩ := e
  refine ⟨?_, ?_⟩
  · rintro rfl
    exact search_of_some (cdataElement_section (isTag_of_mem htag) (h.cdata _ he rfl).1 _)
  rintro rfl
  refine ⟨?_, search_of_some (plainElement_escaped (isTag_of_mem htag) text _)⟩
  rw [search_cdataElement_escaped htag]
  exact hafter

theorem extractTag_element (h : Readable elements) (htags : ∀ e ∈ elements, e.1 ∈ itemTags)
    (hnodup : (elements.map Prod.fst).Nodup) (he : e ∈ elements) :
    extractTag (writeElements elements) e.1 = some (trim e.2.text) := by
  obtain ⟨hcdata, hescaped⟩ := search_element h htags hnodup he
  rw [extractTag]
  cases hwrap : e.2.wrap with
  | cdata => rw [hcdata hwrap]
  | escaped =>
    obtain ⟨hnone, hplain⟩ := hescaped hwrap
    rw [hnone, hplain, Option.map_some, trim_escapeXml, decode_escapeXml (h.escaped e he hwrap)]

theorem cleanText_extractTagRaw (h : Readable elements) (htags : ∀ e ∈ elements, e.1 ∈ itemTags)
    (hnodup : (elements.map Prod.fst).Nodup) (he : e ∈ elements) :
    (extractTagRaw (writeElements elements) e.1).map cleanText = some (shownText e.2) := by
  obtain ⟨hcdata, hescaped⟩ := search_element h htags hnodup he
  have hentityless := h.escaped e he
  rw [extractTagRaw]
  obtain ⟨tag, wrap, text⟩ := e
  cases wrap with
  | cdata =>
    rw [hcdata rfl]
    rfl
  | escaped =>
    obtain ⟨hnone, hplain⟩ := hescaped rfl
    rw [hnone, hplain, Option.map_some, Option.map_some, cleanText_escapeXml (hentityless rfl)]
    rfl

theorem extractTagRaw_encoded (h : Readable elements) (htags : ∀ e ∈ elements, e.1 ∈ itemTags) :
    extractTagRaw (writeElements elements) "content:encoded" = none := by
  have hmark : utf16 ("<" ++ "content:encoded") = utf16 "<content:encoded" := by decide
  have hclear : Clear (stripText ("<" ++ "content:encoded")) (writeElements elements) := by
    rw [show stripText ("<" ++ "content:encoded") = strip lower (utf16 "<content:encoded") from
      congrArg (strip lower) hmark]
    exact clear_block h htags "<content:encoded" (by decide)
  have hnone : ∀ t, t <:+ writeElements elements → openTag "content:encoded" t = none :=
    fun t ↦ (hclear.mono fun r ↦ openTag_eq_none).eq_none rfl
  rw [extractTagRaw, search_eq_none fun t ht ↦ cdataElement_eq_none (hnone t ht),
    search_eq_none fun t ht ↦ plainElement_eq_none (hnone t ht), Option.map_none]

end Elements

/-! ## Items -/

section Items

variable {item : FeedItem}

theorem FeedItem.elements_tags (item : FeedItem) : ∀ e ∈ item.elements, e.1 ∈ itemTags := by
  intro e he
  exact List.mem_map_of_mem (f := Prod.fst) he

theorem FeedItem.elements_nodup (item : FeedItem) : (item.elements.map Prod.fst).Nodup := by
  have hnodup : itemTags.Nodup := by decide
  exact hnodup

theorem parseItem_written (date : Text → Option Int) (h : Readable item.elements) :
    (parseItem date (writeElements item.elements)).written = readBack item := by
  have hlink : ∀ e ∈ item.elements, extractTag (writeElements item.elements) e.1 =
      some (trim e.2.text) :=
    fun e ↦ extractTag_element h item.elements_tags item.elements_nodup
  have hshown : ∀ e ∈ item.elements, (extractTagRaw (writeElements item.elements) e.1).map
      cleanText = some (shownText e.2) :=
    fun e ↦ cleanText_extractTagRaw h item.elements_tags item.elements_nodup
  simp only [FeedItem.elements, List.forall_mem_cons] at hlink hshown
  obtain ⟨-, hlink, -, hguid, -⟩ := hlink
  obtain ⟨htitle, -, hdescription, -⟩ := hshown
  obtain ⟨title, htitle, hshownTitle⟩ := Option.map_eq_some_iff.mp htitle
  obtain ⟨description, hdescription, hshownDescription⟩ := Option.map_eq_some_iff.mp hdescription
  have hencoded := extractTagRaw_encoded h item.elements_tags
  rw [FeedItem.elements] at hencoded ⊢
  simp only [ParsedFeedItem.written, parseItem, readBack, htitle, hencoded, hdescription, hlink,
    hguid, Option.none_or, Option.some_or, Option.getD_some, hshownTitle, hshownDescription]

theorem closeItem_eq_none {s : Text} (h : stripText "</item>" s = none)
    (h' : stripText "</entry>" s = none) : closeItem s = none := by
  rw [closeItem, h, h']
  rfl

theorem itemElement_renderItem (h : Readable item.elements) (rest : Text) :
    itemElement (renderItem item ++ rest) = some (writeElements item.elements, rest) := by
  have hmap : (utf16 "<item").map lower = utf16 "<item" := by decide
  have hmap' : (utf16 "</item>").map lower = utf16 "</item>" := by decide
  have hopening : utf16 ("<" ++ "item" ++ ">") = utf16 "<item" ++ [62] := by decide
  have hopen : ∀ s, openItem (utf16 ("<" ++ "item" ++ ">") ++ s) = some s := by
    intro s
    rw [hopening, List.append_assoc, openItem, stripText, strip_append hmap]
    rfl
  have hclose : closeItem (utf16 ("</" ++ "item" ++ ">") ++ rest) = some rest := by
    have hstrip : stripText "</item>" (utf16 ("</" ++ "item" ++ ">") ++ rest) = some rest :=
      strip_append hmap' rest
    rw [closeItem, hstrip, Option.some_or]
  have hclear : Clear closeItem (writeElements item.elements) := by
    intro t hne ht r
    exact closeItem_eq_none (clear_block h item.elements_tags "</item>" (by decide) t hne ht r)
      (clear_block h item.elements_tags "</entry>" (by decide) t hne ht r)
  rw [renderItem, element, List.append_assoc, List.append_assoc, itemElement, hopen,
    Option.bind_some]
  exact upTo_append (fun t hne ht ↦ hclear t hne ht _) hclose

theorem itemElement_eq_none {s : Text} (h : openItem s = none) : itemElement s = none := by
  rw [itemElement, h, Option.bind_none]

theorem openItem_eq_none {s : Text} (h : stripText "<item" s = none)
    (h' : stripText "<entry" s = none) : openItem s = none := by
  rw [openItem, h, h']
  rfl

theorem clear_frame : ∀ s ∈ ["<rss version=\"2.0\">", "<channel>", "</channel>", "</rss>"],
    Clear itemElement (utf16 s) := by
  have hall : ∀ s ∈ ["<rss version=\"2.0\">", "<channel>", "</channel>", "</rss>"],
      utf16 s = 60 :: (utf16 s).tail ∧ 60 ∉ (utf16 s).tail ∧
        clash lower (utf16 "<item") (utf16 s) = true ∧
          clash lower (utf16 "<entry") (utf16 s) = true := by
    decide
  have hitem : IsMark (utf16 "<item") := ⟨by decide, by decide, by decide⟩
  have hentry : IsMark (utf16 "<entry") := ⟨by decide, by decide, by decide⟩
  intro s hs
  obtain ⟨hcons, hrest, hclash, hclash'⟩ := hall s hs
  rw [hcons] at hclash hclash' ⊢
  intro t hne ht r
  exact itemElement_eq_none (openItem_eq_none (hitem.clear_of_clash hclash hrest t hne ht r)
    (hentry.clear_of_clash hclash' hrest t hne ht r))

/-- **The blocks of a feed** are those of its items, whatever is around them. -/
theorem itemBlocks_renderItems {items : List FeedItem}
    (h : ∀ item ∈ items, Readable item.elements) {head tail : Text}
    (hhead : Clear itemElement head) (htail : search itemElement tail = none) :
    itemBlocks (head ++ (items.flatMap renderItem ++ tail)) =
      items.map fun item ↦ writeElements item.elements := by
  induction items generalizing head with
  | nil =>
    rw [List.flatMap_nil, List.nil_append, itemBlocks, hhead.search_append, htail]
    rfl
  | cons item items ih =>
    rw [List.forall_mem_cons] at h
    have hfound : search itemElement
        (head ++ (renderItem item ++ (items.flatMap renderItem ++ tail))) =
          some (writeElements item.elements, items.flatMap renderItem ++ tail) := by
      rw [hhead.search_append]
      exact search_of_some (itemElement_renderItem h.1 _)
    have hshorter : (items.flatMap renderItem ++ tail).length <
        (head ++ (renderItem item ++ (items.flatMap renderItem ++ tail))).length := by
      have hpos : 0 < (renderItem item).length := by
        rw [renderItem, element, opening_eq]
        exact Nat.succ_pos _
      simp only [List.length_append]
      omega
    have hrest := ih h.2 clear_nil
    rw [List.nil_append] at hrest
    rw [List.flatMap_cons, List.append_assoc, itemBlocks, hfound, List.map_cons, ← hrest]
    exact if_pos hshorter

theorem parse_items (date : Text → Option Int) {items : List FeedItem}
    (h : ∀ item ∈ items, Readable item.elements) :
    (parseRSSXml date (renderFeed items)).map ParsedFeedItem.written = items.map readBack := by
  have hhead : Clear itemElement (utf16 "<rss version=\"2.0\">" ++ utf16 "<channel>") :=
    (clear_frame _ (by decide)).append (clear_frame _ (by decide))
  have htail : Clear itemElement (utf16 "</channel>" ++ utf16 "</rss>") :=
    (clear_frame _ (by decide)).append (clear_frame _ (by decide))
  have hnone : search itemElement (utf16 "</channel>" ++ utf16 "</rss>") = none :=
    search_eq_none fun t ↦ htail.eq_none rfl
  have hblocks := itemBlocks_renderItems h hhead hnone
  rw [parseRSSXml, renderFeed, List.append_assoc, hblocks, List.map_map, List.map_map]
  exact List.map_congr_left fun item hitem ↦ parseItem_written date (h item hitem)

end Items

/-! ## The round trip -/

theorem stripExact_of_notMem {name : String} {text : Text} (hname : 38 ∈ utf16 name)
    (h : 38 ∉ text) : stripExact name text = none :=
  strip_of_forall hname fun _ hu heq ↦ h (heq ▸ hu)

theorem decodeNamed_of_notMem {entities : List (String × Nat)} {text : Text}
    (hentities : ∀ entity ∈ entities, 38 ∈ utf16 entity.1) (h : 38 ∉ text) :
    decodeNamed entities text = text := by
  induction entities with
  | nil => rfl
  | cons entity entities ih =>
    rw [List.forall_mem_cons] at hentities
    have hone : replaceAll (namedEntity entity.1 [entity.2]) text = text := by
      refine replaceAll_eq_self fun s hs ↦ ?_
      rw [namedEntity, stripExact_of_notMem hentities.1 fun hs' ↦ h (hs.subset hs'),
        Option.map_none]
    rw [decodeNamed, List.foldl_cons, hone]
    exact ih hentities.2

theorem decodeXmlEntities_of_notMem {text : Text} (h : 38 ∉ text) :
    decodeXmlEntities text = text := by
  have hnamed : decodeNamed namedEntities text = text := decodeNamed_of_notMem (by decide) h
  have hnumeric : ∀ opening isDigit base, 38 ∈ utf16 opening →
      replaceAll (numericEntity opening isDigit base) text = text := by
    refine fun opening isDigit base hopening ↦ replaceAll_eq_self fun s hs ↦ ?_
    rw [numericEntity, stripExact_of_notMem hopening fun hs' ↦ h (hs.subset hs')]
  have hdecimal : replaceAll decimalEntity text = text := hnumeric _ _ _ (by decide)
  have hhex : replaceAll hexEntity text = text := hnumeric _ _ _ (by decide)
  rw [decodeXmlEntities, hnamed, hdecimal, hhex]

theorem cleanText_of_plain {text : Text} (hlt : 60 ∉ text) (hamp : 38 ∉ text) :
    cleanText (trim text) = trim text := by
  obtain ⟨before, after, hparts, -⟩ := exists_trimBy isSpace text
  have hsubset : trim text ⊆ text := by
    intro u hu
    rw [hparts]
    exact List.mem_append_left after (List.mem_append_right before hu)
  rw [cleanText, stripHtml_of_notMem fun hu ↦ hlt (hsubset hu), trim_trim,
    decodeXmlEntities_of_notMem fun hu ↦ hamp (hsubset hu)]

/-- **The feed that was written is read back**: its items in their order, a link and a guid trimmed,
and so is what was escaped.  A title or a description in a section is read as HTML, which leaves it
as it is but for its ends when it has neither a bracket nor an ampersand. -/
theorem renderFeed_parses (date : Text → Option Int) (items : List FeedItem)
    (h : ∀ item ∈ items, Readable item.elements) :
    (parseRSSXml date (renderFeed items)).map ParsedFeedItem.written = items.map readBack ∧
      ∀ text, 60 ∉ text → 38 ∉ text → shownText ⟨.cdata, text⟩ = trim text :=
  ⟨parse_items date h, fun _ ↦ cleanText_of_plain⟩

/-- An item whose title has an ampersand and a bracket, both escaped; its description is a section. -/
def sampleItem : FeedItem where
  title := ⟨.escaped, utf16 "A&B <5"⟩
  link := ⟨.escaped, utf16 " x?a&b"⟩
  description := ⟨.cdata, utf16 "<b>5"⟩
  guid := ⟨.cdata, utf16 "g]1"⟩

instance (text : Text) : Decidable (Entityless text) :=
  decidable_of_iff (∀ s ∈ text.tails, entityAt s = false)
    (forall_congr' fun s ↦ imp_congr_left (List.mem_tails s text))

theorem sampleItem_readable : Readable sampleItem.elements := by
  refine ⟨?_, ?_, ?_⟩
  · decide
  · decide
  · decide

theorem renderFeed_parses_sample : (∀ item ∈ [sampleItem], Readable item.elements) ∧
      (parseRSSXml (fun _ ↦ none) (renderFeed [sampleItem])).map ParsedFeedItem.written =
        [sampleItem].map readBack := by
  have h : ∀ item ∈ [sampleItem], Readable item.elements := by
    intro item hitem
    rw [List.mem_singleton.mp hitem]
    exact sampleItem_readable
  exact ⟨h, (renderFeed_parses (fun _ ↦ none) [sampleItem] h).1⟩

theorem shownText_sample : shownText sampleItem.description = [53] := by
  have htag : replaceAll htmlTag [60, 98, 62, 53] = [53] := by
    have hmatch : htmlTag [60, 98, 62, 53] = some ([], [53]) := by decide
    rw [replaceAll_of_some hmatch (by decide), List.nil_append]
    refine replaceAll_eq_self fun s hs ↦ ?_
    rcases List.suffix_cons_iff.mp hs with rfl | hs
    · rfl
    · rw [List.suffix_nil.mp hs]
      rfl
  have hstrip : stripHtml (trim (utf16 "<b>5")) = [53] := by
    rw [show trim (utf16 "<b>5") = [60, 98, 62, 53] by decide, stripHtml, htag]
    decide
  rw [sampleItem, shownText, cleanText, hstrip]
  exact decodeXmlEntities_of_notMem (by decide)

/-- **HTML in a section** is taken out: not every feed is read back as it was written. -/
theorem section_read_as_html : ¬ ∀ (date : Text → Option Int) (items : List FeedItem),
      (parseRSSXml date (renderFeed items)).map ParsedFeedItem.written = items.map fun item ↦
        (trim item.title.text, trim item.description.text, some item.link.text,
          some item.guid.text) := by
  intro h
  have hread := parse_items (fun _ ↦ none) (List.forall_mem_singleton.mpr sampleItem_readable)
  rw [h, List.map_singleton, List.map_singleton, List.cons.injEq, readBack, Prod.mk.injEq,
    Prod.mk.injEq, shownText_sample] at hread
  exact absurd hread.1.2.1 (by decide)

end OpenAlice.News.Feed
