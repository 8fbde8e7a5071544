import Rumble.Catalog.Descriptor
import Rumble.Proofs.JsonValue
import Rumble.Proofs.Lookup

namespace Rumble

namespace Json

/-! ### Records -/

theorem text?_ofString (s : String) : (ofString s).text? = some s := rfl

theorem name?_ofString (s : String) : (ofString s).name? = some s := rfl

theorem isWritable_ofWord (n : UInt32) (depth : Nat) : (ofWord n).IsWritable depth := by
  have h : n.toNat < UInt64.size := n.toNat_lt.trans (by decide)
  exact .number (Number.isInteger_ofNat _) (Number.isTooLarge_ofNat h) depth

theorem isWritable_record {members : List (String × Json)} {depth : Nat}
    (h : ∀ m ∈ members, m.2.IsWritable depth) : (record members).IsWritable (depth + 1) := by
  apply IsWritable.object
  · rw [List.forall_mem_map]
    exact fun _ _ => rfl
  · rw [List.forall_mem_map]
    exact h

theorem mapM_eq_some_iff {α β : Type} {f : α → Option β} {xs : List α} {ys : List β} :
    xs.mapM f = some ys ↔ (∀ x ∈ xs, (f x).isSome) ∧ xs.filterMap f = ys := by
  induction xs generalizing ys with
  | nil => simp
  | cons x xs ih =>
    rw [List.mapM_cons, List.forall_mem_cons]
    cases hx : f x with
    | none => simp
    | some y =>
      rw [List.filterMap_cons_some hx]
      cases hs : xs.mapM f with
      | none =>
        have hn : ¬∀ x ∈ xs, (f x).isSome := fun h => by
          cases hs.symm.trans (ih.mpr ⟨h, rfl⟩)
        simp [hn]
      | some ys' =>
        obtain ⟨h, rfl⟩ := ih.mp hs
        exact ⟨fun he => ⟨⟨rfl, h⟩, Option.some.inj he⟩, fun he => congrArg some he.2⟩

theorem mapM_map_of_forall {α β γ : Type} {write : α → β} {read : β → Option γ} {result : α → γ}
    {xs : List α} (h : ∀ x ∈ xs, read (write x) = some (result x)) :
    (xs.map write).mapM read = some (xs.map result) := by
  induction xs with
  | nil => rfl
  | cons x xs ih =>
    rw [List.map_cons, List.mapM_cons, h x List.mem_cons_self,
      ih fun y hy => h y (List.mem_cons_of_mem x hy)]
    rfl

theorem filter_eq_nil_of_forall_ne {key : String} {members : List (String × Json)}
    (h : ∀ m ∈ members, m.1 ≠ key) :
    (members.map fun (k, v) => (some k, v)).filter (·.1 = some key) = [] := by
  rw [List.filter_eq_nil_iff, List.forall_mem_map]
  intro m hm
  simpa using h m hm

theorem only?_record {members : List (String × Json)} (hn : (members.map Prod.fst).Nodup)
    {m : String × Json} (hm : m ∈ members) :
    only? m.1 (members.map fun (k, v) => (some k, v)) = some m.2 := by
  induction members with
  | nil => cases hm
  | cons n ns ih =>
    obtain ⟨hne, hn⟩ := List.nodup_cons.mp hn
    rcases List.mem_cons.mp hm with rfl | hm
    · have hr : ∀ k ∈ ns, k.1 ≠ m.1 := fun k hk he => hne (List.mem_map.mpr ⟨k, hk, he⟩)
      rw [only?, List.map_cons, List.filter_cons_of_pos (by simp),
        filter_eq_nil_of_forall_ne hr]
    · have hk : n.1 ≠ m.1 := fun he => hne (List.mem_map.mpr ⟨m, hm, he.symm⟩)
      have hs := ih hn hm
      rw [only?] at hs ⊢
      rw [List.map_cons, List.filter_cons_of_neg (by simpa using hk)]
      exact hs

theorem fields?_record (members : List (String × Json)) (hn : (members.map Prod.fst).Nodup) :
    (record members).fields? (members.map Prod.fst) = some (members.map Prod.snd) :=
  mapM_map_of_forall fun _ hm => only?_record hn hm

theorem tagged?_record {tag name : String} {members : List (String × Json)}
    (h : ∀ m ∈ members, m.1 ≠ tag) :
    (record ((tag, ofString name) :: members)).tagged? tag = some (name, record members) := by
  have ho : only? tag ((some tag, ofString name) :: members.map fun (k, v) => (some k, v)) =
      some (ofString name) := by
    rw [only?, List.filter_cons_of_pos (by simp), filter_eq_nil_of_forall_ne h]
  have hf : ((some tag, ofString name) :: members.map fun (k, v) => (some k, v)).filter
      (·.1 ≠ some tag) = members.map fun (k, v) => (some k, v) := by
    rw [List.filter_cons_of_neg (by simp), List.filter_eq_self, List.forall_mem_map]
    intro m hm
    simpa using h m hm
  rw [record, List.map_cons, tagged?, ho, hf]
  rfl

end Json

/-! ### Entries -/

namespace Segment

theorem isWritable_toJson (s : Segment) (depth : Nat) : s.toJson.IsWritable (depth + 1) := by
  cases s with
  | effect e => exact Json.isWritable_record (by simpa using .string e.name depth)
  | silence ms => exact Json.isWritable_record (by simpa using Json.isWritable_ofWord ms depth)

theorem ofJson?_toJson (s : Segment) : ofJson? s.toJson = some s := by
  cases s with
  | effect e =>
    have ha : (toJson (.effect e)).alternative? = some ("effect", .ofString e.name) := rfl
    simp [ofJson?, ha, Json.name?_ofString, Effect.ofName?_name]
  | silence ms =>
    have ha : (toJson (.silence ms)).alternative? = some ("silence", .ofWord ms) := rfl
    simp [ofJson?, ha, Json.word?_ofWord]

end Segment

namespace Entry

theorem isWritable_toJson (entry : Entry) : entry.toJson.IsWritable 3 := by
  cases entry with
  | simple level lengthMs =>
    have hl : Json.IsWritable (.array (lengthMs.toList.map Json.ofWord)) 2 := by
      apply Json.IsWritable.array
      rw [List.forall_mem_map]
      exact fun n _ => Json.isWritable_ofWord n 1
    apply Json.isWritable_record
    simp [Json.ofString, Json.IsWritable.string, hl]
  | compound segments =>
    have hs : Json.IsWritable (.array (segments.map Segment.toJson)) 2 := by
      apply Json.IsWritable.array
      rw [List.forall_mem_map]
      exact fun s _ => s.isWritable_toJson 0
    apply Json.isWritable_record
    simp [Json.ofString, Json.IsWritable.string, hs]
  | ringtone queue durationMs =>
    apply Json.isWritable_record
    simp [Json.ofString, Json.IsWritable.string, Json.isWritable_ofWord]

theorem lengths?_toJson (lengthMs : PerStrength UInt32) :
    lengths? (.array (lengthMs.toList.map Json.ofWord)) = some lengthMs := by
  simp [lengths?, PerStrength.toList, Json.items?, Json.word?_ofWord]

theorem ofJson?_toJson (entry : Entry) : ofJson? entry.toJson = some entry := by
  cases entry with
  | simple level lengthMs =>
    have hf := Json.fields?_record [("level", .ofString level.name),
      ("base_duration_ms", .array (lengthMs.toList.map Json.ofWord))] (by simp)
    rw [toJson, ofJson?, Json.tagged?_record (by simp)]
    simp only [List.map_cons, List.map_nil] at hf
    simp [simpleOfJson?, hf, Json.name?_ofString, Level.ofName?_name, lengths?_toJson]
  | compound segments =>
    have hf := Json.fields?_record [("segments", .array (segments.map Segment.toJson))] (by simp)
    have hs := Json.mapM_map_of_forall fun s (_ : s ∈ segments) => s.ofJson?_toJson
    rw [toJson, ofJson?, Json.tagged?_record (by simp)]
    simp only [List.map_cons, List.map_nil] at hf
    simp [compoundOfJson?, hf, Json.items?, hs]
  | ringtone queue durationMs =>
    have hf := Json.fields?_record [("queue", .ofString queue),
      ("duration_ms", .ofWord durationMs)] (by simp)
    rw [toJson, ofJson?, Json.tagged?_record (by simp)]
    simp only [List.map_cons, List.map_nil] at hf
    simp [ringtoneOfJson?, hf, Json.text?_ofString, Json.word?_ofWord]

end Entry

/-! ### Catalogs -/

namespace Catalog

def entries (c : Catalog) : List (Effect × Entry) :=
  c.effects.filterMap fun e => (c.get? e).map (e, ·)

theorem toJson_eq (c : Catalog) :
    c.toJson = .record (c.entries.map fun (e, entry) => (e.name, entry.toJson)) := by
  rw [toJson, entries, List.map_filterMap]
  simp only [Option.map_map, Function.comp_def]

theorem isWritable_toJson (c : Catalog) : c.toJson.IsWritable 4 := by
  rw [toJson_eq]
  apply Json.isWritable_record
  rw [List.forall_mem_map]
  exact fun m _ => m.2.isWritable_toJson

theorem entriesOfJson?_toJson (c : Catalog) : entriesOfJson? c.toJson = some c.entries := by
  have hm : ∀ m ∈ c.entries, entryOfMember? (some m.1.name, m.2.toJson) = some m := fun m _ => by
    simp [entryOfMember?, Effect.ofName?_name, Entry.ofJson?_toJson]
  have hs := Json.mapM_map_of_forall hm
  rw [List.map_id'] at hs
  rw [toJson_eq, Json.record, List.map_map]
  exact hs

theorem lookup_entries (c : Catalog) (e : Effect) : c.entries.reverse.lookup e = c.get? e := by
  rw [entries, ← List.filterMap_reverse, lookup_filterMap]
  split
  · rfl
  · next he =>
    -- What is not listed has no entry, since effects with an entry are.
    cases hg : c.get? e with
    | none => rfl
    | some entry =>
      have hc : e ∈ c.effects := List.mem_filter.mpr ⟨e.mem_all, by simp [contains, hg]⟩
      exact absurd (List.mem_reverse.mpr hc) he

/-- Entries make up a catalog, if the last one for each effect is its entry. -/
theorem ofEntries_eq_ok {entries : List (Effect × Entry)} {c : Catalog}
    (h : ∀ e, entries.reverse.lookup e = c.get? e) : ofEntries entries = .ok c := by
  -- A catalog carries a proof about its map, so the map is replaced as a variable.
  obtain ⟨get?, hv⟩ := c
  have hg : (fun e => entries.reverse.lookup e) = get? := funext h
  subst hg
  unfold ofEntries
  dsimp only
  split
  · rfl
  · next hd => cases hv.symm.trans hd

theorem ofEntries_entries (c : Catalog) : ofEntries c.entries = .ok c :=
  ofEntries_eq_ok c.lookup_entries

/-- A catalog is read back from its descriptor, whatever its queues contain. -/
theorem ofDescriptor_descriptor (c : Catalog) : ofDescriptor c.descriptor = .ok c := by
  have hp : Json.parse? c.descriptor = some c.toJson :=
    Json.parse?_render c.isWritable_toJson (by decide)
  rw [ofDescriptor, hp, Option.bind_some, entriesOfJson?_toJson]
  exact ofEntries_entries c

example : (Entry.ringtone "a\"\\\x01é" 100).toJson.render =
    "\x7b\"kind\":\"ringtone\",\"queue\":\"a\\\"\\\\\\u0001é\",\"duration_ms\":100\x7d" := by
  decide

end Catalog

end Rumble
