import Mathlib.Data.Finset.Card
import Mathlib.Data.List.Dedup
import Mathlib.Data.List.Induction
import Mathlib.Data.List.Perm.Subperm

/-!
# Gathering by a key

The entries of a list merged by their keys, up to a number of keys. While there is room,
an entry is what all of its key make together, whatever stands between them.
-/
namespace Gunda.Lib

/-- How entries are told apart and merged, and how many are kept. -/
structure Gathering (α κ : Type) where
  capacity : Nat
  key : α → κ
  merge : α → α → α
  key_merge : ∀ kept entry, key (merge kept entry) = key kept

namespace Gathering

variable {α κ : Type}
variable {next : List α}

theorem foldl_key {g : Gathering α κ} (rest : List α) (first : α) :
    g.key (rest.foldl g.merge first) = g.key first := by
  induction rest generalizing first with
  | nil => rfl
  | cons entry rest ih => rw [List.foldl_cons, ih, g.key_merge]

variable [DecidableEq κ] (g : Gathering α κ)

/-- The entries with one merged into the first of its key, if there is one. -/
def mergeFirst (entry : α) : List α → Option (List α)
  | [] => none
  | kept :: rest =>
      if g.key kept = g.key entry then some (g.merge kept entry :: rest)
      else (mergeFirst entry rest).map (kept :: ·)

def put (kept : List α) (entry : α) : List α :=
  if g.capacity ≤ kept.length then kept
  else match g.mergeFirst entry kept with
    | some merged => merged
    | none => kept ++ [entry]

def all (entries : List α) : List α := entries.foldl g.put []

def group (k : κ) (entries : List α) : List α := entries.filter (g.key · = k)

/-- What the entries of a key make together. -/
def merged (k : κ) (entries : List α) : Option α :=
  match g.group k entries with
  | [] => none
  | first :: rest => some (rest.foldl g.merge first)

/-- No entry comes after as many keys as are kept. -/
def Room (entries : List α) : Prop :=
  ∀ before entry after, entries = before ++ entry :: after →
    (before.map g.key).dedup.length < g.capacity

variable {g} {entry m : α} {entries kept : List α} {k : κ}

theorem mergeFirst_cons (first : α) (rest : List α) : g.mergeFirst entry (first :: rest) =
    if g.key first = g.key entry then some (g.merge first entry :: rest)
    else (g.mergeFirst entry rest).map (first :: ·) := rfl

theorem mergeFirst_none : g.mergeFirst entry kept = none ↔ ∀ e ∈ kept, g.key e ≠ g.key entry := by
  induction kept with
  | nil => simp [mergeFirst]
  | cons first rest ih =>
    rw [mergeFirst_cons, List.forall_mem_cons]
    split
    · rename_i same
      simp [same]
    · rename_i other
      simp [other, ih]

section

variable (h : g.mergeFirst entry kept = some next)
include h

theorem mergeFirst_keys :
    next.map g.key = kept.map g.key := by
  induction kept generalizing next with
  | nil => cases h
  | cons first rest ih =>
    rw [mergeFirst_cons] at h
    split at h
    · cases h
      rw [List.map_cons, List.map_cons, g.key_merge]
    · obtain ⟨tail, found, same⟩ := Option.map_eq_some_iff.mp h
      rw [← same, List.map_cons, List.map_cons, ih found]

/-- Where the keys differ, only the entry of that key changes. -/
theorem mem_mergeFirst
    (distinct : (kept.map g.key).Nodup) : m ∈ next ↔ (m ∈ kept ∧ g.key m ≠ g.key entry) ∨
      ∃ e ∈ kept, g.key e = g.key entry ∧ m = g.merge e entry := by
  induction kept generalizing next with
  | nil => cases h
  | cons first rest ih =>
    rw [List.map_cons, List.nodup_cons] at distinct
    rw [mergeFirst_cons] at h
    split at h
    · rename_i same
      cases h
      have others : ∀ e ∈ rest, g.key e ≠ g.key entry := by
        intro e member equal
        apply distinct.1
        rw [same, ← equal]
        exact List.mem_map_of_mem member
      constructor
      · intro member
        rcases List.mem_cons.mp member with head | tail
        · exact .inr ⟨first, List.mem_cons_self, same, head⟩
        · exact .inl ⟨List.mem_cons_of_mem _ tail, others m tail⟩
      · rintro (⟨member, other⟩ | ⟨e, member, equal, merged⟩)
        · rcases List.mem_cons.mp member with head | tail
          · rw [head] at other
            exact absurd same other
          · exact List.mem_cons_of_mem _ tail
        · rcases List.mem_cons.mp member with head | tail
          · rw [merged, head]
            exact List.mem_cons_self
          · exact absurd equal (others e tail)
    · rename_i other
      obtain ⟨tail, found, same⟩ := Option.map_eq_some_iff.mp h
      rw [← same, List.mem_cons, ih found distinct.2]
      constructor
      · rintro (head | ⟨member, differs⟩ | ⟨e, member, equal, merged⟩)
        · rw [head]
          exact .inl ⟨List.mem_cons_self, other⟩
        · exact .inl ⟨List.mem_cons_of_mem _ member, differs⟩
        · exact .inr ⟨e, List.mem_cons_of_mem _ member, equal, merged⟩
      · rintro (⟨member, differs⟩ | ⟨e, member, equal, merged⟩)
        · rcases List.mem_cons.mp member with head | inside
          · exact .inl head
          · exact .inr (.inl ⟨inside, differs⟩)
        · rcases List.mem_cons.mp member with head | inside
          · rw [head] at equal
            exact absurd equal other
          · exact .inr (.inr ⟨e, inside, equal, merged⟩)

/-- Merging an entry that brings nothing changes nothing. -/
theorem mergeFirst_same (same : ∀ e ∈ kept, g.merge e entry = e) : next = kept := by
  induction kept generalizing next with
  | nil => cases h
  | cons first rest ih =>
    rw [List.forall_mem_cons] at same
    rw [mergeFirst_cons] at h
    split at h
    · cases h
      rw [same.1]
    · obtain ⟨tail, found, equal⟩ := Option.map_eq_some_iff.mp h
      rw [← equal, ih found same.2]

theorem forall_mergeFirst {P : α → Prop}
    (keeps : ∀ e ∈ kept, g.key e = g.key entry → P (g.merge e entry)) (holds : ∀ e ∈ kept, P e) :
    ∀ e ∈ next, P e := by
  induction kept generalizing next with
  | nil => cases h
  | cons first rest ih =>
    rw [List.forall_mem_cons] at keeps holds
    rw [mergeFirst_cons] at h
    split at h
    · rename_i same
      cases h
      exact List.forall_mem_cons.mpr ⟨keeps.1 same, holds.2⟩
    · obtain ⟨tail, found, equal⟩ := Option.map_eq_some_iff.mp h
      rw [← equal]
      exact List.forall_mem_cons.mpr ⟨holds.1, ih found keeps.2 holds.2⟩

end

/-! ## What is kept -/

/-- An entry finds no room, is merged into the one of its key, or comes last. -/
theorem put_cases (g : Gathering α κ) (kept : List α) (entry : α) :
    (g.capacity ≤ kept.length ∧ g.put kept entry = kept) ∨
      kept.length < g.capacity ∧
        (g.mergeFirst entry kept = some (g.put kept entry) ∨
          g.mergeFirst entry kept = none ∧ g.put kept entry = kept ++ [entry]) := by
  by_cases full : g.capacity ≤ kept.length
  · exact .inl ⟨full, if_pos full⟩
  · refine .inr ⟨Nat.lt_of_not_le full, ?_⟩
    cases found : g.mergeFirst entry kept <;> simp [put, full, found]

theorem put_length (bounded : kept.length ≤ g.capacity) :
    (g.put kept entry).length ≤ g.capacity := by
  rcases put_cases g kept entry with ⟨_, same⟩ | ⟨room, found | ⟨_, last⟩⟩
  · rw [same]
    exact bounded
  · have same := congrArg List.length (mergeFirst_keys found)
    rw [List.length_map, List.length_map] at same
    omega
  · rw [last, List.length_append, List.length_singleton]
    omega

theorem put_nodup (distinct : (kept.map g.key).Nodup) : ((g.put kept entry).map g.key).Nodup := by
  rcases put_cases g kept entry with ⟨_, same⟩ | ⟨_, found | ⟨absent, last⟩⟩
  · rw [same]
    exact distinct
  · rw [mergeFirst_keys found]
    exact distinct
  · rw [last, List.map_append, List.map_singleton]
    apply distinct.append (List.nodup_singleton _)
    intro one member single
    obtain ⟨e, inside, same⟩ := List.mem_map.mp member
    rw [List.mem_singleton.mp single] at same
    exact mergeFirst_none.mp absent e inside same

theorem put_keys : ∀ one ∈ (g.put kept entry).map g.key,
    one ∈ kept.map g.key ∨ one = g.key entry := by
  rcases put_cases g kept entry with ⟨_, same⟩ | ⟨_, found | ⟨_, last⟩⟩
  · rw [same]
    exact fun one member => .inl member
  · rw [mergeFirst_keys found]
    exact fun one member => .inl member
  · intro one member
    rw [last, List.map_append, List.map_singleton] at member
    exact (List.mem_append.mp member).imp id List.mem_singleton.mp

theorem put_ne_nil (some_ : 0 < g.capacity) : g.put kept entry ≠ [] := by
  rcases put_cases g kept entry with ⟨full, same⟩ | ⟨_, found | ⟨_, last⟩⟩
  · rw [same]
    exact List.ne_nil_of_length_pos (Nat.lt_of_lt_of_le some_ full)
  · intro empty
    rw [empty] at found
    have same := mergeFirst_keys found
    rw [List.map_nil, eq_comm, List.map_eq_nil_iff] at same
    rw [same] at found
    cases found
  · rw [last]
    exact List.append_ne_nil_of_right_ne_nil _ (List.cons_ne_nil _ _)

theorem all_snoc : g.all (entries ++ [entry]) = g.put (g.all entries) entry := by
  rw [all, List.foldl_append]
  rfl

theorem all_ne_nil (some_ : 0 < g.capacity) (nonempty : entries ≠ []) : g.all entries ≠ [] := by
  rw [← List.dropLast_append_getLast nonempty, all_snoc]
  exact put_ne_nil some_

theorem all_length (entries : List α) : (g.all entries).length ≤ g.capacity := by
  induction entries using List.reverseRecOn with
  | nil => exact Nat.zero_le _
  | append_singleton entries entry ih =>
    rw [all_snoc]
    exact put_length ih

theorem all_nodup (entries : List α) : ((g.all entries).map g.key).Nodup := by
  induction entries using List.reverseRecOn with
  | nil => exact List.nodup_nil
  | append_singleton entries entry ih =>
    rw [all_snoc]
    exact put_nodup ih

/-- What holds of the entries, and of two that are merged, holds of what is kept. -/
theorem forall_all {P : α → Prop}
    (keeps : ∀ e other, g.key e = g.key other → P e → P other → P (g.merge e other))
    (holds : ∀ e ∈ entries, P e) : ∀ e ∈ g.all entries, P e := by
  induction entries using List.reverseRecOn with
  | nil => exact fun e member => nomatch member
  | append_singleton entries entry ih =>
    obtain ⟨before, last⟩ := List.forall_mem_append.mp holds
    have last := last entry List.mem_cons_self
    have ih := ih before
    rw [all_snoc, put]
    split
    · exact ih
    · split
      · rename_i next found
        exact forall_mergeFirst found (fun e member same => keeps e entry same (ih e member) last) ih
      · exact List.forall_mem_append.mpr ⟨ih, List.forall_mem_singleton.mpr last⟩

/-- Entries of different keys are all kept. -/
theorem all_of_nodup (distinct : (entries.map g.key).Nodup) (few : entries.length ≤ g.capacity) :
    g.all entries = entries := by
  induction entries using List.reverseRecOn with
  | nil => rfl
  | append_singleton entries entry ih =>
    rw [List.length_append, List.length_singleton] at few
    rw [List.map_append, List.map_singleton, List.nodup_append] at distinct
    obtain ⟨distinct, _, apart⟩ := distinct
    have absent : g.mergeFirst entry entries = none := by
      apply mergeFirst_none.mpr
      intro e member
      exact apart _ (List.mem_map_of_mem member) _ List.mem_cons_self
    rw [all_snoc, ih distinct (by omega), put, if_neg (by omega), absent]

theorem all_keys (entries : List α) : (g.all entries).map g.key ⊆ entries.map g.key := by
  induction entries using List.reverseRecOn with
  | nil => exact List.Subset.refl _
  | append_singleton entries entry ih =>
    intro one member
    rw [all_snoc] at member
    rw [List.map_append, List.map_singleton, List.mem_append, List.mem_singleton]
    exact (put_keys one member).imp (fun inside => ih inside) id

theorem all_length_le (entries : List α) :
    (g.all entries).length ≤ (entries.map g.key).dedup.length := by
  have inside : (g.all entries).map g.key ⊆ (entries.map g.key).dedup := by
    intro one member
    exact List.mem_dedup.mpr (all_keys entries member)
  rw [← List.length_map g.key]
  exact ((all_nodup entries).subperm inside).length_le

theorem put_mono (inside : k ∈ kept.map g.key) : k ∈ (g.put kept entry).map g.key := by
  rcases put_cases g kept entry with ⟨_, same⟩ | ⟨_, found | ⟨_, last⟩⟩
  · rw [same]
    exact inside
  · rw [mergeFirst_keys found]
    exact inside
  · rw [last, List.map_append]
    exact List.mem_append_left _ inside

theorem put_new (room : ¬ g.capacity ≤ kept.length) :
    g.key entry ∈ (g.put kept entry).map g.key := by
  rcases put_cases g kept entry with ⟨full, _⟩ | ⟨_, found | ⟨_, last⟩⟩
  · exact absurd full room
  · rw [mergeFirst_keys found]
    by_contra absent
    have none_ : g.mergeFirst entry kept = none := by
      apply mergeFirst_none.mpr
      intro e member same
      apply absent
      rw [← same]
      exact List.mem_map_of_mem member
    rw [found] at none_
    cases none_
  · rw [last, List.map_append]
    exact List.mem_append_right _ List.mem_cons_self

theorem dedup_snoc_length (keys : List κ) : (keys ++ [k]).dedup.length =
    if k ∈ keys then keys.dedup.length else keys.dedup.length + 1 := by
  rw [← List.card_toFinset, ← List.card_toFinset, List.toFinset_append, Finset.union_comm]
  rw [List.toFinset_cons, List.toFinset_nil, insert_empty_eq, ← Finset.insert_eq]
  split
  · rename_i inside
    rw [Finset.insert_eq_of_mem (List.mem_toFinset.mpr inside)]
  · rename_i absent
    rw [Finset.card_insert_of_notMem (List.mem_toFinset.not.mpr absent)]

/-- While there is room every key is kept. -/
theorem all_length_eq (entries : List α) :
    (g.all entries).length = min g.capacity (entries.map g.key).dedup.length := by
  induction entries using List.reverseRecOn with
  | nil => rw [List.map_nil, List.dedup_nil]; exact (Nat.min_zero _).symm
  | append_singleton entries entry ih =>
    rw [all_snoc, List.map_append, List.map_singleton, dedup_snoc_length]
    by_cases full : g.capacity ≤ (g.all entries).length
    · rw [put, if_pos full]
      split <;> omega
    · have inside : (g.all entries).map g.key ⊆ (entries.map g.key).dedup := by
        intro one member
        exact List.mem_dedup.mpr (all_keys entries member)
      have perm : ((g.all entries).map g.key).Perm (entries.map g.key).dedup := by
        apply ((all_nodup entries).subperm inside).perm_of_length_le
        rw [List.length_map]
        omega
      have known : g.mergeFirst entry (g.all entries) = none ↔ g.key entry ∉ entries.map g.key := by
        rw [mergeFirst_none, ← List.mem_dedup, ← perm.mem_iff, List.mem_map]
        constructor
        · rintro absent ⟨e, member, same⟩
          exact absent e member same
        · intro absent e member same
          exact absent ⟨e, member, same⟩
      rw [put, if_neg full]
      cases found : g.mergeFirst entry (g.all entries) with
      | some next =>
        rw [found] at known
        have same := congrArg List.length (mergeFirst_keys found)
        rw [List.length_map, List.length_map] at same
        rw [if_pos (not_not.mp (known.not.mp (Option.some_ne_none _)))]
        exact same.trans ih
      | none =>
        rw [if_neg (known.mp found), List.length_append, List.length_singleton]
        omega

/-- The keys that are kept are those that come before as many others. -/
theorem mem_keys_all : k ∈ (g.all entries).map g.key ↔ ∃ before e after,
    entries = before ++ e :: after ∧ g.key e = k ∧
      (before.map g.key).dedup.length < g.capacity := by
  induction entries using List.reverseRecOn with
  | nil =>
    constructor
    · exact fun member => nomatch member
    · rintro ⟨before, e, after, split, _⟩
      exact absurd split.symm (List.append_ne_nil_of_right_ne_nil _ (List.cons_ne_nil _ _))
  | append_singleton entries entry ih =>
    have sized := all_length_eq (g := g) entries
    rw [all_snoc]
    constructor
    · intro member
      by_cases known : k ∈ (g.all entries).map g.key
      · obtain ⟨before, e, after, split, same, room⟩ := ih.mp known
        exact ⟨before, e, after ++ [entry], by rw [split, List.append_assoc]; rfl, same, room⟩
      · have new := (put_keys k member).resolve_left known
        refine ⟨entries, entry, [], rfl, new.symm, ?_⟩
        by_contra full
        rw [put, if_pos (by omega)] at member
        exact known member
    · rintro ⟨before, e, after, split, same, room⟩
      rcases List.eq_nil_or_concat after with none_ | ⟨tail, last, shape⟩
      · rw [none_] at split
        obtain ⟨front, single⟩ := List.append_inj' split rfl
        rw [← front] at room
        rw [← same, ← List.cons.inj single |>.1]
        exact put_new (by omega)
      · rw [shape, List.concat_eq_append, ← List.cons_append, ← List.append_assoc] at split
        obtain ⟨front, _⟩ := List.append_inj' split rfl
        exact put_mono (ih.mpr ⟨before, e, tail, front, same, room⟩)

/-! ## What the entries of a key make together -/

theorem group_snoc_self : g.group (g.key entry) (entries ++ [entry]) =
    g.group (g.key entry) entries ++ [entry] := by
  simp [group]

theorem group_snoc_other (other : g.key entry ≠ k) :
    g.group k (entries ++ [entry]) = g.group k entries := by
  simp [group, other]

theorem key_of_merged (h : g.merged k entries = some m) : g.key m = k := by
  unfold merged at h
  split at h
  · cases h
  · rename_i first rest grouped
    cases h
    rw [foldl_key]
    have member : first ∈ g.group k entries := by
      rw [grouped]
      exact List.mem_cons_self
    exact of_decide_eq_true (List.mem_filter.mp member).2

theorem merged_snoc_other (other : g.key entry ≠ k) :
    g.merged k (entries ++ [entry]) = g.merged k entries := by
  unfold merged
  rw [group_snoc_other other]

theorem merged_snoc_self : g.merged (g.key entry) (entries ++ [entry]) =
    match g.merged (g.key entry) entries with
    | none => some entry
    | some before => some (g.merge before entry) := by
  unfold merged
  rw [group_snoc_self]
  cases g.group (g.key entry) entries with
  | nil => rfl
  | cons first rest =>
    rw [List.cons_append]
    dsimp only
    rw [List.foldl_append]
    rfl

theorem Room.init (room : g.Room (entries ++ [entry])) : g.Room entries := by
  intro before one after split
  apply room before one (after ++ [entry])
  rw [split, List.append_assoc]
  rfl

/-- While there is room, what is kept is what the entries of each key make together. -/
theorem mem_all (room : g.Room entries) : m ∈ g.all entries ↔ g.merged (g.key m) entries = some m := by
  induction entries using List.reverseRecOn generalizing m with
  | nil => simp [all, merged, group]
  | append_singleton entries entry ih =>
    have ih := fun m => @ih m room.init
    have short : ¬ g.capacity ≤ (g.all entries).length :=
      Nat.not_le.mpr (Nat.lt_of_le_of_lt (all_length_le entries) (room entries entry [] rfl))
    rw [all_snoc, put, if_neg short]
    cases found : g.mergeFirst entry (g.all entries) with
    | some next =>
      rw [mem_mergeFirst found (all_nodup entries)]
      by_cases same : g.key m = g.key entry
      · rw [same, merged_snoc_self]
        constructor
        · rintro (⟨_, other⟩ | ⟨e, member, equal, merged⟩)
          · exact absurd rfl other
          · have before := (ih e).mp member
            rw [equal] at before
            rw [before, merged]
        · intro now
          cases before : g.merged (g.key entry) entries with
          | none =>
            have keys := mergeFirst_none.not.mp (by rw [found]; exact Option.some_ne_none _)
            exfalso
            apply keys
            intro e member equal
            have kept := (ih e).mp member
            rw [equal, before] at kept
            cases kept
          | some e =>
            rw [before] at now
            have equal := key_of_merged before
            refine .inr ⟨e, (ih e).mpr (by rw [equal]; exact before), equal, ?_⟩
            exact (Option.some.inj now).symm
      · rw [merged_snoc_other (Ne.symm same), ← ih m]
        constructor
        · rintro (⟨member, _⟩ | ⟨e, _, equal, merged⟩)
          · exact member
          · exfalso
            apply same
            rw [merged, g.key_merge, equal]
        · exact fun member => .inl ⟨member, same⟩
    | none =>
      rw [List.mem_append, List.mem_singleton]
      have absent := mergeFirst_none.mp found
      have fresh : g.merged (g.key entry) entries = none := by
        cases before : g.merged (g.key entry) entries with
        | none => rfl
        | some e =>
          have equal := key_of_merged before
          have member := (ih e).mpr (by rw [equal]; exact before)
          exact absurd equal (absent e member)
      by_cases same : g.key m = g.key entry
      · rw [same, merged_snoc_self, fresh]
        constructor
        · rintro (member | rfl)
          · exact absurd same (absent m member)
          · rfl
        · exact fun now => .inr (Option.some.inj now).symm
      · rw [merged_snoc_other (Ne.symm same), ← ih m]
        constructor
        · rintro (member | equal)
          · exact member
          · rw [equal] at same
            exact absurd rfl same
        · exact .inl

end Gathering

end Gunda.Lib
