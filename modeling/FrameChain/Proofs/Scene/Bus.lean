import FrameChain.Bus
import Mathlib.Data.List.Nodup

set_option autoImplicit false

namespace FrameChain.Bus

structure Tidy (bus : Bus) : Prop where
  keys : (bus.topics.map (·.1)).Nodup
  kept : ∀ topic ∈ bus.topics, topic.2 ≠ []
  once : ∀ topic ∈ bus.topics, (topic.2.map (·.component)).Nodup

theorem Tidy.congr {bus bus' : Bus} (h : bus.Tidy) (ht : bus'.topics = bus.topics) : bus'.Tidy :=
  ⟨ht ▸ h.keys, ht ▸ h.kept, ht ▸ h.once⟩

def holders (bus : Bus) : List ComponentId :=
  bus.topics.flatMap fun topic => topic.2.map (·.component)

theorem mem_holders {bus : Bus} {c : ComponentId} :
    c ∈ bus.holders ↔ ∃ topic ∈ bus.topics, ∃ sub ∈ topic.2, sub.component = c := by
  simp [holders]

theorem mem_topics_of_subscriber {bus : Bus} {key : String} {sub : Subscription}
    (h : sub ∈ bus.subscribers key) : (key, bus.subscribers key) ∈ bus.topics := by
  unfold subscribers at h ⊢
  cases hl : bus.topics.lookup key with
  | none => simp [hl] at h
  | some subs =>
    obtain ⟨before, after, heq, _⟩ := List.lookup_eq_some_iff.1 hl
    rw [heq]
    exact List.mem_append_right _ (List.mem_cons_self ..)

theorem Tidy.subscribers_nodup {bus : Bus} (h : bus.Tidy) (key : String) :
    ((bus.subscribers key).map (·.component)).Nodup := by
  cases hs : bus.subscribers key with
  | nil => exact List.nodup_nil
  | cons sub rest =>
    have hmem : (key, bus.subscribers key) ∈ bus.topics :=
      mem_topics_of_subscriber (hs ▸ List.mem_cons_self : sub ∈ bus.subscribers key)
    rw [← hs]
    exact h.once _ hmem

def enrol (component : ComponentId) (filter : Option Condition) (subs : List Subscription) :
    List Subscription :=
  if subs.any fun s => s.component == component then
    subs.map fun s => if s.component == component then { s with filter } else s
  else subs ++ [⟨component, filter⟩]

theorem subscribe_eq (bus : Bus) (key : String) (component : ComponentId)
    (filter : Option Condition) :
    bus.subscribe key component filter =
      if bus.topics.any fun topic => topic.1 == key then
        { bus with topics := bus.topics.map fun topic =>
            if topic.1 == key then (topic.1, enrol component filter topic.2) else topic }
      else { bus with topics := bus.topics ++ [(key, [⟨component, filter⟩])] } := rfl

section Enrol

variable (component : ComponentId) (filter : Option Condition) (subs : List Subscription)

theorem enrol_ne_nil : enrol component filter subs ≠ [] := by
  unfold enrol
  split
  · rename_i h
    intro hnil
    rw [List.map_eq_nil_iff] at hnil
    simp [hnil] at h
  · simp

theorem mem_enrol {c : ComponentId} (h : ∃ s ∈ enrol component filter subs, s.component = c) :
    c = component ∨ ∃ s ∈ subs, s.component = c := by
  obtain ⟨s, hs, rfl⟩ := h
  unfold enrol at hs
  split at hs
  · obtain ⟨old, hold, rfl⟩ := List.mem_map.1 hs
    refine .inr ⟨old, hold, ?_⟩
    split <;> rfl
  · rcases List.mem_append.1 hs with hs | hs
    · exact .inr ⟨s, hs, rfl⟩
    · rw [List.mem_singleton.1 hs]
      exact .inl rfl

theorem enrol_nodup (h : (subs.map (·.component)).Nodup) :
    ((enrol component filter subs).map (·.component)).Nodup := by
  unfold enrol
  split
  · rw [List.map_map]
    have heq : ((fun s : Subscription => s.component) ∘ fun s =>
        if s.component == component then { s with filter } else s) = fun s => s.component := by
      funext s
      simp only [Function.comp_apply]
      split <;> rfl
    rw [heq]
    exact h
  · rename_i hn
    rw [List.map_append, List.nodup_append]
    refine ⟨h, List.nodup_singleton _, ?_⟩
    intro c hc d hd hcd
    obtain ⟨s, hs, rfl⟩ := List.mem_map.1 hc
    have heq : s.component = component := hcd.trans (List.mem_singleton.1 hd)
    exact hn (List.any_eq_true.2 ⟨s, hs, by simp [heq]⟩)

end Enrol

theorem Tidy.send {bus : Bus} (h : bus.Tidy) (m : Message) : (bus.send m).Tidy :=
  ⟨h.keys, h.kept, h.once⟩

theorem Tidy.subscribe {bus : Bus} (h : bus.Tidy) (key : String) (component : ComponentId)
    (filter : Option Condition) : (bus.subscribe key component filter).Tidy := by
  rw [subscribe_eq]
  split
  · refine ⟨?_, ?_, ?_⟩
    · have heq : ((fun topic : String × List Subscription => topic.1) ∘ fun topic =>
          if topic.1 == key then (topic.1, enrol component filter topic.2) else topic) =
          fun topic => topic.1 := by
        funext topic
        simp only [Function.comp_apply]
        split <;> rfl
      rw [List.map_map, heq]
      exact h.keys
    · intro topic ht
      obtain ⟨old, hold, rfl⟩ := List.mem_map.1 ht
      split
      · exact enrol_ne_nil _ _ _
      · exact h.kept old hold
    · intro topic ht
      obtain ⟨old, hold, rfl⟩ := List.mem_map.1 ht
      split
      · exact enrol_nodup _ _ _ (h.once old hold)
      · exact h.once old hold
  · rename_i hn
    refine ⟨?_, ?_, ?_⟩
    · rw [List.map_append, List.nodup_append]
      refine ⟨h.keys, List.nodup_singleton _, ?_⟩
      intro k hk l hl hkl
      obtain ⟨topic, ht, rfl⟩ := List.mem_map.1 hk
      have heq : topic.1 = key := hkl.trans (List.mem_singleton.1 hl)
      exact hn (List.any_eq_true.2 ⟨topic, ht, by simp [heq]⟩)
    · intro topic ht
      rcases List.mem_append.1 ht with ht | ht
      · exact h.kept topic ht
      · rw [List.mem_singleton.1 ht]
        exact List.cons_ne_nil _ _
    · intro topic ht
      rcases List.mem_append.1 ht with ht | ht
      · exact h.once topic ht
      · rw [List.mem_singleton.1 ht]
        exact List.nodup_singleton _

theorem mem_holders_subscribe {bus : Bus} {key : String} {component c : ComponentId}
    {filter : Option Condition} (h : c ∈ (bus.subscribe key component filter).holders) :
    c = component ∨ c ∈ bus.holders := by
  rw [mem_holders] at h
  obtain ⟨topic, ht, sub, hsub, hc⟩ := h
  rw [subscribe_eq] at ht
  split at ht
  · obtain ⟨old, hold, rfl⟩ := List.mem_map.1 ht
    split at hsub
    · rcases mem_enrol _ _ _ ⟨sub, hsub, hc⟩ with h | h
      · exact .inl h
      · exact .inr (mem_holders.2 ⟨old, hold, h⟩)
    · exact .inr (mem_holders.2 ⟨old, hold, sub, hsub, hc⟩)
  · rcases List.mem_append.1 ht with ht | ht
    · exact .inr (mem_holders.2 ⟨topic, ht, sub, hsub, hc⟩)
    · rw [List.mem_singleton.1 ht] at hsub
      rw [← hc, List.mem_singleton.1 hsub]
      exact .inl rfl

theorem mem_topics_withdraw {bus : Bus} {drop : String → Bool} {component : ComponentId}
    {topic : String × List Subscription} (h : topic ∈ (bus.withdraw drop component).topics) :
    ∃ old ∈ bus.topics, topic.2.Sublist old.2 ∧ (topic.2 = [] → old.2 = []) ∧
      (drop old.1 = true → ∀ s ∈ topic.2, s.component ≠ component) := by
  obtain ⟨old, hold, heq⟩ := List.mem_filterMap.1 h
  refine ⟨old, hold, ?_⟩
  cases hd : drop old.1 with
  | false =>
    simp only [hd, Bool.false_eq_true, if_false, Option.some.injEq] at heq
    subst heq
    exact ⟨List.Sublist.refl _, id, fun h => by cases h⟩
  | true =>
    simp only [hd, if_true] at heq
    split at heq
    · cases heq
    · rename_i hne
      cases heq
      refine ⟨List.filter_sublist, fun hnil => ?_, fun _ s hs => ?_⟩
      · exact absurd (List.isEmpty_iff.2 hnil) hne
      · simpa using (List.mem_filter.1 hs).2

theorem keys_withdraw (bus : Bus) (drop : String → Bool) (component : ComponentId) :
    ((bus.withdraw drop component).topics.map (·.1)).Sublist (bus.topics.map (·.1)) := by
  obtain ⟨topics, queue⟩ := bus
  change ((topics.filterMap _).map _).Sublist _
  induction topics with
  | nil => exact List.Sublist.refl _
  | cons topic rest ih =>
    rw [List.filterMap_cons]
    split
    · exact ih.cons _
    · rename_i kept heq
      have hkey : kept.1 = topic.1 := by
        split at heq
        · dsimp only at heq
          split at heq
          · cases heq
          · cases heq
            rfl
        · cases heq
          rfl
      simpa only [List.map_cons, hkey] using ih.cons_cons topic.1

theorem Tidy.withdraw {bus : Bus} (h : bus.Tidy) (drop : String → Bool) (component : ComponentId) :
    (bus.withdraw drop component).Tidy := by
  refine ⟨h.keys.sublist (keys_withdraw bus drop component), fun topic ht => ?_, fun topic ht => ?_⟩
  · obtain ⟨old, hold, _, hnil, _⟩ := mem_topics_withdraw ht
    exact fun hn => h.kept old hold (hnil hn)
  · obtain ⟨old, hold, hsub, _, _⟩ := mem_topics_withdraw ht
    exact (h.once old hold).sublist (hsub.map _)

theorem mem_holders_withdraw {bus : Bus} {drop : String → Bool} {component c : ComponentId}
    (h : c ∈ (bus.withdraw drop component).holders) : c ∈ bus.holders := by
  obtain ⟨topic, ht, sub, hs, hc⟩ := mem_holders.1 h
  obtain ⟨old, hold, hsub, _, _⟩ := mem_topics_withdraw ht
  exact mem_holders.2 ⟨old, hold, sub, hsub.subset hs, hc⟩

theorem not_mem_holders_unsubscribeAll (bus : Bus) (component : ComponentId) :
    component ∉ (bus.unsubscribeAll component).holders := by
  intro h
  obtain ⟨topic, ht, sub, hs, hc⟩ := mem_holders.1 h
  obtain ⟨old, _, _, _, hne⟩ := mem_topics_withdraw ht
  exact hne rfl sub hs hc

def filter? (bus : Bus) (key : String) (component : ComponentId) : Option (Option Condition) :=
  ((bus.subscribers key).find? fun s => s.component == component).map (·.filter)

theorem isSubscribed_eq (bus : Bus) (key : String) (component : ComponentId) :
    bus.isSubscribed key component = (bus.filter? key component).isSome := by
  rw [isSubscribed, filter?, Option.isSome_map, Bool.eq_iff_iff, List.any_eq_true,
    List.find?_isSome]

theorem filter?_congr {bus bus' : Bus} (h : bus'.topics = bus.topics) (key : String)
    (component : ComponentId) : bus'.filter? key component = bus.filter? key component := by
  simp only [filter?, subscribers, h]

theorem mem_of_filter? {bus : Bus} {key : String} {component : ComponentId}
    {filter : Option Condition} (h : bus.filter? key component = some filter) :
    ⟨component, filter⟩ ∈ bus.subscribers key := by
  obtain ⟨sub, hsub, rfl⟩ := Option.map_eq_some_iff.1 h
  have hc : sub.component = component := by simpa using List.find?_some hsub
  subst hc
  exact List.mem_of_find?_eq_some hsub

theorem Tidy.filter?_of_mem {bus : Bus} (h : bus.Tidy) {key : String} {sub : Subscription}
    (hsub : sub ∈ bus.subscribers key) : bus.filter? key sub.component = some sub.filter := by
  have hsome : ((bus.subscribers key).find? fun s => s.component == sub.component).isSome := by
    rw [List.find?_isSome]
    exact ⟨sub, hsub, beq_self_eq_true _⟩
  obtain ⟨found, hfound⟩ := Option.isSome_iff_exists.1 hsome
  have hc : found.component = sub.component := by simpa using List.find?_some hfound
  have heq : found = sub := List.inj_on_of_nodup_map (h.subscribers_nodup key)
    (List.mem_of_find?_eq_some hfound) hsub hc
  rw [filter?, hfound, heq, Option.map_some]

theorem mem_holders_of_filter? {bus : Bus} {key : String} {component : ComponentId}
    {filter : Option Condition} (h : bus.filter? key component = some filter) :
    component ∈ bus.holders :=
  mem_holders.2 ⟨_, mem_topics_of_subscriber (mem_of_filter? h), _, mem_of_filter? h, rfl⟩

theorem find?_enrol (component id : ComponentId) (filter : Option Condition)
    (subs : List Subscription) :
    (enrol component filter subs).find? (fun s => s.component == id) =
      if id = component then some ⟨component, filter⟩
      else subs.find? fun s => s.component == id := by
  unfold enrol
  by_cases hany : subs.any fun s => s.component == component
  · have hsame : ((fun s : Subscription => s.component == id) ∘ fun s =>
        if s.component == component then { s with filter } else s) =
          fun s => s.component == id := by
      funext s
      simp only [Function.comp_apply]
      split <;> rfl
    rw [if_pos hany, List.find?_map, hsame]
    by_cases hid : id = component
    · subst hid
      rw [List.any_eq_true] at hany
      obtain ⟨found, hfound⟩ := Option.isSome_iff_exists.1 (List.find?_isSome.2 hany)
      have hc : found.component = id := by simpa using List.find?_some hfound
      simp [hfound, hc]
    · rw [if_neg hid]
      cases hfound : subs.find? fun s => s.component == id with
      | none => rfl
      | some found =>
        have hc : found.component = id := by simpa using List.find?_some hfound
        simp [hc, hid]
  · rw [if_neg hany, List.find?_append, List.find?_singleton]
    by_cases hid : id = component
    · subst hid
      have hnone : subs.find? (fun s => s.component == id) = none := by
        rw [List.find?_eq_none]
        intro s hs hc
        exact hany (List.any_eq_true.2 ⟨s, hs, hc⟩)
      simp [hnone]
    · simp [hid, Ne.symm hid]

section Lookup

variable {ν : Type} {key : String}

theorem lookup_map {f : String × ν → String × ν} (hf : ∀ t, (f t).1 = t.1)
    (topics : List (String × ν)) :
    (topics.map f).lookup key = (topics.lookup key).map fun v => (f (key, v)).2 := by
  induction topics with
  | nil => rfl
  | cons topic rest ih =>
    obtain ⟨k, v⟩ := topic
    rw [List.map_cons, List.lookup_cons, List.lookup_cons, hf, ih]
    cases hk : key == k with
    | true =>
      rw [beq_iff_eq] at hk
      subst hk
      rfl
    | false => rfl

theorem lookup_filterMap {f : String × ν → Option (String × ν)} (hf : ∀ t u, f t = some u → u.1 = t.1)
    {topics : List (String × ν)} (h : (topics.map (·.1)).Nodup) :
    (topics.filterMap f).lookup key = (topics.lookup key).bind fun v => (f (key, v)).map (·.2) := by
  induction topics with
  | nil => rfl
  | cons topic rest ih =>
    obtain ⟨k, v⟩ := topic
    obtain ⟨hfirst, hrest⟩ := List.nodup_cons.1 h
    rw [List.lookup_cons]
    cases hk : key == k with
    | true =>
      rw [beq_iff_eq] at hk
      subst hk
      have hnone : rest.lookup key = none := by
        rw [List.lookup_eq_none_iff]
        intro t ht
        rw [bne_iff_ne]
        exact fun heq => hfirst (List.mem_map.2 ⟨t, ht, heq.symm⟩)
      cases hv : f (key, v) with
      | none => simp [hv, ih hrest, hnone]
      | some u =>
        obtain ⟨k, w⟩ := u
        cases hf _ _ hv
        simp [hv]
    | false =>
      cases hv : f (k, v) with
      | none => simp [hv, ih hrest]
      | some u =>
        obtain ⟨k', w⟩ := u
        cases hf _ _ hv
        simp [hv, List.lookup_cons, hk, ih hrest]

end Lookup

theorem subscribers_subscribe (bus : Bus) (key k : String) (component : ComponentId)
    (filter : Option Condition) :
    (bus.subscribe k component filter).subscribers key =
      if key = k then enrol component filter (bus.subscribers key) else bus.subscribers key := by
  obtain ⟨topics, queue⟩ := bus
  rw [subscribe_eq]
  by_cases hany : topics.any fun topic => topic.1 == k
  · rw [if_pos hany, subscribers, subscribers, lookup_map fun topic => by split <;> rfl]
    cases hl : topics.lookup key with
    | none =>
      have hne : key ≠ k := by
        rintro rfl
        obtain ⟨topic, ht, heq⟩ := List.any_eq_true.1 hany
        have hnone := List.lookup_eq_none_iff.1 hl topic ht
        rw [beq_iff_eq] at heq
        simp [heq] at hnone
      simp [hne]
    | some subs => by_cases hk : key = k <;> simp [hk]
  · rw [if_neg hany, subscribers, subscribers, List.lookup_append, List.lookup_cons]
    cases hk : key == k with
    | true =>
      rw [beq_iff_eq] at hk
      subst hk
      have hnone : topics.lookup key = none := by
        rw [List.lookup_eq_none_iff]
        intro topic ht
        rw [bne_iff_ne]
        exact fun heq => hany (List.any_eq_true.2 ⟨topic, ht, beq_iff_eq.2 heq.symm⟩)
      rw [hnone, if_pos rfl]
      rfl
    | false => simp [beq_eq_false_iff_ne.1 hk]

theorem filter?_subscribe (bus : Bus) (key k : String) (id component : ComponentId)
    (filter : Option Condition) :
    (bus.subscribe k component filter).filter? key id =
      if key = k ∧ id = component then some filter else bus.filter? key id := by
  rw [filter?, filter?, subscribers_subscribe]
  by_cases hk : key = k
  · rw [if_pos hk, find?_enrol]
    by_cases hid : id = component <;> simp [hk, hid]
  · simp [hk]

theorem Tidy.subscribers_withdraw {bus : Bus} (h : bus.Tidy) (drop : String → Bool)
    (component : ComponentId) (key : String) :
    (bus.withdraw drop component).subscribers key =
      if drop key then (bus.subscribers key).filter fun s => s.component != component
      else bus.subscribers key := by
  rw [subscribers, Bus.withdraw, lookup_filterMap ?_ h.keys, subscribers]
  · cases bus.topics.lookup key with
    | none => split <;> rfl
    | some subs =>
      by_cases hd : drop key
      · by_cases hempty : (subs.filter fun s => s.component != component).isEmpty
        · simp only [hd, hempty, Option.bind_some, if_true, Option.map_none, Option.getD_none,
            Option.getD_some]
          exact (List.isEmpty_iff.1 hempty).symm
        · simp only [hd, hempty, Option.bind_some, if_true, Option.map_some, Option.getD_some,
            Bool.false_eq_true, if_false]
      · simp [hd]
  · intro topic kept heq
    split at heq
    · dsimp only at heq
      split at heq
      · cases heq
      · cases heq
        rfl
    · cases heq
      rfl

theorem Tidy.filter?_withdraw {bus : Bus} (h : bus.Tidy) (drop : String → Bool)
    (component id : ComponentId) (key : String) :
    (bus.withdraw drop component).filter? key id =
      if drop key ∧ id = component then none else bus.filter? key id := by
  rw [filter?, filter?, h.subscribers_withdraw]
  by_cases hd : drop key
  · simp only [hd, if_true, true_and, List.find?_filter]
    by_cases hid : id = component
    · subst hid
      rw [if_pos rfl, Option.map_eq_none_iff, List.find?_eq_none]
      intro s _
      simp
    · rw [if_neg hid]
      congr 2
      funext s
      by_cases hs : s.component = id <;> simp [hs, hid]
  · simp [hd]

end FrameChain.Bus
