import MeshMarkup.Proofs.Except
import MeshMarkup.Proofs.Json.Scalar

namespace MeshMarkup.Json

/-- A value that can be read back from its written form, with at most so many arrays and objects
around another. -/
inductive Legible : Nat → Json → Prop
  | null {levels : Nat} : Legible levels .null
  | bool {levels : Nat} (flag : Bool) : Legible levels (.bool flag)
  | integer {levels : Nat} {n : Int} (h : n.natAbs < 10 ^ integerDigitLimit) :
      Legible levels (.integer n)
  | number {levels : Nat} (x : Binary64) : Legible levels (.number x)
  | text {levels : Nat} (content : String) : Legible levels (.text content)
  | array {levels : Nat} {items : List Json} (hitems : ∀ item ∈ items, Legible levels item) :
      Legible (levels + 1) (.array items)
  | object {levels : Nat} {members : List (String × Json)}
      (hkeys : (members.map Prod.fst).Nodup) (hmembers : ∀ m ∈ members, Legible levels m.2) :
      Legible (levels + 1) (.object members)

section Written

variable {layout : Layout} {level : Nat} {items : List Json} {members : List (String × Json)}
  {after : List Char}

theorem Legible.start {levels : Nat} {v : Json} (h : Legible levels v) :
    ∃ ch rest, write layout level v after = ch :: rest ∧ Leads ch := by
  cases h with
  | null => exact ⟨'n', _, rfl, rfl, by decide, by decide⟩
  | bool flag =>
      cases flag with
      | false => exact ⟨'f', _, rfl, rfl, by decide, by decide⟩
      | true => exact ⟨'t', _, rfl, rfl, by decide, by decide⟩
  | @integer levels n h =>
      obtain ⟨t, hs, -⟩ := exists_spelled_integer n
      obtain ⟨ch, rest, he, hch⟩ := hs.leads
      rw [write, he]
      exact ⟨ch, rest ++ after, rfl, hch⟩
  | number x =>
      obtain ⟨ch, rest, he, hch⟩ := exists_leads_number x
      rw [write, he]
      exact ⟨ch, rest ++ after, rfl, hch⟩
  | text content => exact ⟨'"', _, rfl, rfl, by decide, by decide⟩
  | @array levels items hitems => cases items <;> exact ⟨'[', _, rfl, rfl, by decide, by decide⟩
  | @object levels members hkeys hmembers =>
      cases members <;> exact ⟨'\x7b', _, rfl, rfl, by decide, by decide⟩

theorem Legible.begins {levels : Nat} {v : Json} (h : Legible levels v) :
    Begins (write layout level v after) := by
  obtain ⟨ch, rest, he, hspace, -⟩ := h.start
  exact ⟨ch, rest, he, hspace⟩

theorem closing_writeItems (items : List Json) (hafter : Closing after) :
    Closing (writeItems layout level items after) := by
  cases items with
  | nil => exact hafter
  | cons item items =>
      obtain ⟨gap, hgap, -⟩ := layout.itemSeparator_eq level
      rw [writeItems, hgap]
      exact closing_cons (by decide)

theorem closing_writeMembers (members : List (String × Json)) (hafter : Closing after) :
    Closing (writeMembers layout level members after) := by
  cases members with
  | nil => exact hafter
  | cons m members =>
      obtain ⟨gap, hgap, -⟩ := layout.itemSeparator_eq level
      rw [writeMembers, hgap]
      exact closing_cons (by decide)

/-- The text written with a value is no shorter than the text after the value. -/
def Grows (layout : Layout) (v : Json) : Prop :=
  ∀ level after, after.length ≤ (write layout level v after).length

theorem length_writeItems (h : ∀ item ∈ items, Grows layout item) (after : List Char) :
    items.length + after.length ≤ (writeItems layout level items after).length := by
  induction items with
  | nil => simp [writeItems]
  | cons item items ih =>
      obtain ⟨gap, hgap, -⟩ := layout.itemSeparator_eq level
      have htail := ih fun i hi => h i (List.mem_cons_of_mem _ hi)
      have hitem := h item List.mem_cons_self level (writeItems layout level items after)
      simp only [writeItems, hgap, List.cons_append, List.length_cons, List.length_append]
      omega

theorem length_writeMembers (h : ∀ m ∈ members, Grows layout m.2) (after : List Char) :
    members.length + after.length ≤ (writeMembers layout level members after).length := by
  induction members with
  | nil => simp [writeMembers]
  | cons m members ih =>
      obtain ⟨gap, hgap, -⟩ := layout.itemSeparator_eq level
      have htail := ih fun i hi => h i (List.mem_cons_of_mem _ hi)
      have hvalue := h m List.mem_cons_self level (writeMembers layout level members after)
      simp only [writeMembers, hgap, List.cons_append, List.length_cons, List.length_append]
      omega

theorem Legible.grows {levels : Nat} {v : Json} (h : Legible levels v) : Grows layout v := by
  induction h with
  | null => intro level after; simp [write]; omega
  | bool flag => intro level after; cases flag <;> simp [write] <;> omega
  | integer h => intro level after; simp [write]
  | number x => intro level after; simp [write]
  | text content => intro level after; simp [write]
  | @array levels items hitems ih =>
      intro level after
      cases items with
      | nil => simp [write]; omega
      | cons item items =>
          have htail : items.length + _ ≤ (writeItems layout (level + 1) items _).length :=
            length_writeItems (fun i hi => ih i (List.mem_cons_of_mem item hi))
              (layout.lineBreak level ++ ']' :: after)
          have hitem := ih item List.mem_cons_self (level + 1)
            (writeItems layout (level + 1) items (layout.lineBreak level ++ ']' :: after))
          simp only [List.length_append, List.length_cons] at htail
          simp only [write, List.cons_append, List.length_cons, List.length_append]
          omega
  | @object levels members hkeys hmembers ih =>
      intro level after
      cases members with
      | nil => simp [write]; omega
      | cons m members =>
          have htail : members.length + _ ≤ (writeMembers layout (level + 1) members _).length :=
            length_writeMembers (fun i hi => ih i (List.mem_cons_of_mem m hi))
              (layout.lineBreak level ++ '}' :: after)
          have hvalue := ih m List.mem_cons_self (level + 1)
            (writeMembers layout (level + 1) members (layout.lineBreak level ++ '}' :: after))
          simp only [List.length_append, List.length_cons] at htail
          simp only [write, List.cons_append, List.length_cons, List.length_append]
          omega

end Written

/-- A reader that takes the written form of a value for that value. -/
def ReadsBack (value : Cursor → Reading Json) (layout : Layout) (v : Json) : Prop :=
  ∀ level c after, c.rest = write layout level v after → Closing after → Gives (value c) v after

section Composite

variable {value : Cursor → Reading Json} {layout : Layout} {level : Nat} {item : Json}
  {items read : List Json} {key : String} {c : Cursor} {fuel gap after : List Char}

theorem rest_separator {text : List Char} (hc : c.rest = layout.itemSeparator level ++ text)
    (htext : Begins text) : ∃ mark, (skipSpaces c).rest = ',' :: mark ∧
      (skipSpaces (skipSpaces c).next).rest = text := by
  obtain ⟨gap, hsep, hgap⟩ := layout.itemSeparator_eq level
  rw [hsep, List.cons_append] at hc
  have hmark : (skipSpaces c).rest = ',' :: (gap ++ text) :=
    rest_skipSpaces hc spaces_nil (Or.inl (begins_cons rfl))
  refine ⟨gap ++ text, hmark, ?_⟩
  have hnext : (skipSpaces c).next.rest = gap ++ text := by
    rw [Cursor.rest_next, hmark]
    rfl
  exact rest_skipSpaces hnext hgap (Or.inl htext)

theorem itemsFrom_written (hread : ∀ i ∈ item :: items, ReadsBack value layout i)
    (hbegins : ∀ i ∈ items, ∀ after, Begins (write layout level i after))
    (hgap : Spaces gap) (hclose : Closing (gap ++ ']' :: after)) (hfuel : items.length ≤ fuel.length)
    (hc : c.rest = write layout level item (writeItems layout level items (gap ++ ']' :: after))) :
    Gives (itemsFrom value fuel c read) (.array (read.reverse ++ item :: items)) after := by
  induction items generalizing item c fuel read with
  | nil =>
      obtain ⟨d, hd, hrest⟩ := hread item List.mem_cons_self level c _ hc hclose
      have hskip : (skipSpaces d).rest = ']' :: after :=
        rest_skipSpaces hrest hgap (Or.inl (begins_cons rfl))
      rw [itemsFrom.eq_def]
      simp only [hd, hskip, List.reverse_cons]
      exact ⟨_, rfl, by rw [Cursor.rest_next, hskip]; rfl⟩
  | cons next items ih =>
      have hafter : Closing (writeItems layout level (next :: items) (gap ++ ']' :: after)) :=
        closing_writeItems _ hclose
      obtain ⟨d, hd, hrest⟩ := hread item List.mem_cons_self level c _ hc hafter
      obtain ⟨mark, hmark, hnext⟩ := rest_separator hrest (hbegins next List.mem_cons_self _)
      cases fuel with
      | nil => simp at hfuel
      | cons x fuel =>
          have hlater : Gives (itemsFrom value fuel _ (item :: read)) _ after :=
            ih (fun i hi => hread i (List.mem_cons_of_mem item hi))
              (fun i hi => hbegins i (List.mem_cons_of_mem next hi))
              (Nat.le_of_succ_le_succ hfuel) hnext
          rw [itemsFrom.eq_def]
          simp only [hd, hmark]
          simpa only [List.reverse_cons, List.append_assoc, List.singleton_append] using hlater

theorem setMember_of_notMem {members : List (String × Json)} (h : key ∉ members.map Prod.fst)
    (v : Json) : setMember key v members = members ++ [(key, v)] := by
  induction members with
  | nil => rfl
  | cons m members ih =>
      rw [List.map_cons, List.mem_cons, not_or] at h
      rw [setMember, if_neg (Ne.symm h.1), ih h.2, List.cons_append]

theorem key_notMem {before members : List (String × Json)}
    (h : ((before ++ (key, item) :: members).map Prod.fst).Nodup) : key ∉ before.map Prod.fst := by
  rw [List.map_append, List.nodup_append] at h
  exact fun hmem => h.2.2 key hmem key List.mem_cons_self rfl

theorem readKey_written {text : List Char} (hc : c.rest = writeText key ++ ':' :: ' ' :: text)
    (htext : Begins text) : Gives (readKey c) key text := by
  obtain ⟨d, hd, hrest⟩ := readText_writeText hc
  have hcolon : (skipSpaces d).rest = ':' :: ' ' :: text :=
    rest_skipSpaces hrest spaces_nil (Or.inl (begins_cons rfl))
  have hquote : c.rest = '"' :: (key.toList.flatMap escapeChar ++ '"' :: ':' :: ' ' :: text) := by
    rw [hc]
    simp [writeText]
  have hnext : (skipSpaces d).next.rest = [' '] ++ text := by
    rw [Cursor.rest_next, hcolon]
    rfl
  refine ⟨_, ?_, rest_skipSpaces hnext (spaces_singleton rfl) (Or.inl htext)⟩
  rw [readKey.eq_def]
  simp only [hquote, hd, hcolon]

theorem membersFrom_written {members before : List (String × Json)}
    (hread : ∀ m ∈ (key, item) :: members, ReadsBack value layout m.2)
    (hbegins : ∀ m ∈ (key, item) :: members, ∀ after, Begins (write layout level m.2 after))
    (hkeys : ((before ++ (key, item) :: members).map Prod.fst).Nodup) (hgap : Spaces gap)
    (hclose : Closing (gap ++ '}' :: after)) (hfuel : members.length ≤ fuel.length)
    (hc : c.rest = writeText key ++ ':' :: ' ' :: write layout level item
      (writeMembers layout level members (gap ++ '}' :: after))) :
    Gives (membersFrom value fuel c before) (.object (before ++ (key, item) :: members)) after := by
  induction members generalizing key item c fuel before with
  | nil =>
      obtain ⟨d, hd, hrest⟩ := readKey_written hc (hbegins _ List.mem_cons_self _)
      obtain ⟨e, he, hrest⟩ := hread _ List.mem_cons_self level d _ hrest hclose
      have hskip : (skipSpaces e).rest = '}' :: after :=
        rest_skipSpaces hrest hgap (Or.inl (begins_cons rfl))
      rw [membersFrom.eq_def]
      simp only [hd, he, hskip, setMember_of_notMem (key_notMem hkeys)]
      exact ⟨_, rfl, by rw [Cursor.rest_next, hskip]; rfl⟩
  | cons next members ih =>
      obtain ⟨nextKey, nextItem⟩ := next
      have hafter : Closing (writeMembers layout level ((nextKey, nextItem) :: members)
          (gap ++ '}' :: after)) := closing_writeMembers _ hclose
      obtain ⟨d, hd, hrest⟩ := readKey_written hc (hbegins _ List.mem_cons_self _)
      obtain ⟨e, he, hrest⟩ := hread _ List.mem_cons_self level d _ hrest hafter
      rw [writeMembers, List.append_assoc] at hrest
      obtain ⟨mark, hmark, hnext⟩ := rest_separator hrest (begins_cons rfl)
      cases fuel with
      | nil => simp at hfuel
      | cons x fuel =>
          have hset := setMember_of_notMem (key_notMem hkeys) item
          rw [List.append_cons] at hkeys
          have hlater : Gives (membersFrom value fuel _ (before ++ [(key, item)])) _ after :=
            ih (fun m hm => hread m (List.mem_cons_of_mem _ hm))
              (fun m hm => hbegins m (List.mem_cons_of_mem _ hm)) hkeys
              (Nat.le_of_succ_le_succ hfuel) hnext
          rw [membersFrom.eq_def]
          simp only [hd, he, hmark, hset]
          rwa [← List.append_cons] at hlater

end Composite

section Whole

variable {levels : Nat} {layout : Layout} {level : Nat} {c : Cursor} {tail after : List Char}

theorem readValue_empty_array (hc : c.rest = '[' :: tail)
    (hskip : (skipSpaces c.next).rest = ']' :: after) :
    Gives (readValue (levels + 1) c) (.array []) after := by
  rw [readValue.eq_def]
  simp only [hc, hskip]
  exact ⟨_, rfl, by rw [Cursor.rest_next, hskip]; rfl⟩

theorem readValue_array (hc : c.rest = '[' :: tail)
    (hskip : ∀ rest, (skipSpaces c.next).rest ≠ ']' :: rest) :
    readValue (levels + 1) c =
      itemsFrom (readValue levels) (skipSpaces c.next).rest (skipSpaces c.next) [] := by
  rw [readValue.eq_def]
  simp only [hc]

theorem readValue_empty_object (hc : c.rest = '\x7b' :: tail)
    (hskip : (skipSpaces c.next).rest = '\x7d' :: after) :
    Gives (readValue (levels + 1) c) (.object []) after := by
  rw [readValue.eq_def]
  simp only [hc, hskip]
  exact ⟨_, rfl, by rw [Cursor.rest_next, hskip]; rfl⟩

theorem readValue_object (hc : c.rest = '\x7b' :: tail)
    (hskip : ∀ rest, (skipSpaces c.next).rest ≠ '\x7d' :: rest) :
    readValue (levels + 1) c =
      membersFrom (readValue levels) (skipSpaces c.next).rest (skipSpaces c.next) [] := by
  rw [readValue.eq_def]
  simp only [hc]

theorem rest_opening {ch : Char} {gap text : List Char} (hc : c.rest = ch :: (gap ++ text))
    (hgap : Spaces gap) (htext : Begins text) : (skipSpaces c.next).rest = text := by
  have hnext : c.next.rest = gap ++ text := by
    rw [Cursor.rest_next, hc]
    rfl
  exact rest_skipSpaces hnext hgap (Or.inl htext)

theorem array_written {items : List Json} (hitems : ∀ i ∈ items, Legible levels i)
    (hread : ∀ i ∈ items, ReadsBack (readValue levels) layout i)
    (hc : c.rest = write layout level (.array items) after) :
    Gives (readValue (levels + 1) c) (.array items) after := by
  cases items with
  | nil =>
      have hopen : c.rest = '[' :: ([] ++ ']' :: after) := hc
      exact readValue_empty_array hc (rest_opening hopen spaces_nil (begins_cons rfl))
  | cons item items =>
      rw [write, List.cons_append] at hc
      have hitem := hitems item List.mem_cons_self
      have hskip := rest_opening hc (layout.spaces_lineBreak (level + 1)) hitem.begins
      obtain ⟨ch, rest, hstart, -, hch, -⟩ := hitem.start
      have hne : ∀ rest, (skipSpaces c.next).rest ≠ ']' :: rest := by
        intro rest he
        rw [hskip, hstart] at he
        exact hch (List.cons.inj he).1
      have hfuel : items.length ≤ (skipSpaces c.next).rest.length := by
        have htail : items.length + _ ≤ (writeItems layout (level + 1) items _).length :=
          length_writeItems (fun i hi => (hitems i (List.mem_cons_of_mem item hi)).grows)
            (layout.lineBreak level ++ ']' :: after)
        have hgrows : Grows layout item := hitem.grows
        have hlen := hgrows (level + 1)
          (writeItems layout (level + 1) items (layout.lineBreak level ++ ']' :: after))
        rw [hskip]
        omega
      rw [readValue_array hc hne]
      exact itemsFrom_written hread
        (fun i hi _ => (hitems i (List.mem_cons_of_mem item hi)).begins)
        (layout.spaces_lineBreak level) (layout.closing_lineBreak level (by decide)) hfuel hskip

theorem object_written {members : List (String × Json)} (hkeys : (members.map Prod.fst).Nodup)
    (hmembers : ∀ m ∈ members, Legible levels m.2)
    (hread : ∀ m ∈ members, ReadsBack (readValue levels) layout m.2)
    (hc : c.rest = write layout level (.object members) after) :
    Gives (readValue (levels + 1) c) (.object members) after := by
  cases members with
  | nil =>
      have hopen : c.rest = '\x7b' :: ([] ++ '\x7d' :: after) := hc
      exact readValue_empty_object hc (rest_opening hopen spaces_nil (begins_cons rfl))
  | cons m members =>
      obtain ⟨key, item⟩ := m
      rw [write, List.append_assoc, List.cons_append] at hc
      have hskip := rest_opening hc (layout.spaces_lineBreak (level + 1)) (begins_cons rfl)
      have hne : ∀ rest, (skipSpaces c.next).rest ≠ '\x7d' :: rest := by
        intro rest he
        rw [hskip] at he
        exact absurd (List.cons.inj he).1 (by decide)
      have hfuel : members.length ≤ (skipSpaces c.next).rest.length := by
        have htail : members.length + _ ≤ (writeMembers layout (level + 1) members _).length :=
          length_writeMembers (fun m hm => (hmembers m (List.mem_cons_of_mem _ hm)).grows)
            (layout.lineBreak level ++ '\x7d' :: after)
        have hgrows : Grows layout item := (hmembers _ List.mem_cons_self).grows
        have hlen := hgrows (level + 1)
          (writeMembers layout (level + 1) members (layout.lineBreak level ++ '\x7d' :: after))
        rw [hskip, List.length_append, List.length_cons, List.length_cons]
        omega
      rw [readValue_object hc hne]
      exact membersFrom_written hread (fun m hm _ => (hmembers m hm).begins) hkeys
        (layout.spaces_lineBreak level) (layout.closing_lineBreak level (by decide)) hfuel hskip

end Whole

theorem readsBack_readValue {levels : Nat} {v : Json} (h : Legible levels v) (layout : Layout) :
    ReadsBack (readValue levels) layout v := by
  induction h with
  | null =>
      intro level c after hc _
      have hname : ("null", Json.null) ∈ named := by simp [named]
      exact readValue_named hname hc
  | bool flag =>
      intro level c after hc _
      cases flag with
      | false =>
          have hname : ("false", Json.bool false) ∈ named := by simp [named]
          exact readValue_named hname hc
      | true =>
          have hname : ("true", Json.bool true) ∈ named := by simp [named]
          exact readValue_named hname hc
  | integer h => exact fun level c after hc hclose => readValue_integer h hc hclose
  | number x => exact fun level c after hc hclose => readValue_number hc hclose
  | text content => exact fun level c after hc _ => readValue_text hc
  | array hitems ih => exact fun level c after hc _ => array_written hitems ih hc
  | object hkeys hmembers ih =>
      exact fun level c after hc _ => object_written hkeys hmembers ih hc

theorem read_written {levels : Nat} {v : Json} (h : Legible levels v) {layout : Layout}
    {text : String} {gap : List Char} (hgap : Spaces gap) (hclose : Closing gap)
    (htext : text.toList = write layout 0 v gap) : read levels text = .ok v := by
  have hrest : (Cursor.start text.toList).rest = write layout 0 v gap := htext
  have hskip : (skipSpaces (Cursor.start text.toList)).rest = write layout 0 v gap :=
    rest_skipSpaces hrest spaces_nil (Or.inl h.begins)
  obtain ⟨c, hc, hend⟩ := readsBack_readValue h layout 0 _ gap hskip hclose
  have hfinal : (skipSpaces c).rest = [] := by
    rw [← List.append_nil gap] at hend
    exact rest_skipSpaces hend hgap (Or.inr rfl)
  obtain ⟨ch, rest, hstart, -, -, hmark⟩ : ∃ ch rest, write layout 0 v gap = ch :: rest ∧ _ := h.start
  rw [hstart] at hrest
  simp only [read, hrest, hc, Cursor.atEnd, hfinal, List.isEmpty_nil, if_true]
  split
  · next h => exact absurd (List.cons.inj h).1 hmark
  · rfl

end MeshMarkup.Json
