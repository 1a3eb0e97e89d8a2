import Mathlib.Data.List.Nodup
import Mathlib.Data.List.Perm.Basic

/-! Tables with a primary key: rows in insertion order, no two of which share their key. -/
namespace Mxterm

open List

variable {ρ κ : Type}

structure Table (key : ρ → κ) where
  rows : List ρ
  keysNodup : (rows.map key).Nodup

namespace Table
variable {key : ρ → κ}

variable {t u : Table key}

@[ext] theorem ext (h : t.rows = u.rows) : t = u := by
  cases t; cases u; cases h; rfl

def empty (key : ρ → κ) : Table key := ⟨[],by simp⟩

@[simp] theorem empty_rows : (empty key).rows = [] := rfl

instance : Membership ρ (Table key) := ⟨fun t r => r ∈ t.rows⟩

variable {r : ρ}

theorem mem_iff : r ∈ t ↔ r ∈ t.rows := Iff.rfl

@[simp] theorem not_mem_empty (r : ρ) : r ∉ empty key := by simp [mem_iff]

variable {q : ρ}

/-- Two rows with one key are one row. -/
theorem eq_of_key_eq (t : Table key) (hr : r ∈ t) (hq : q ∈ t) (h : key r = key q) : r = q :=
  inj_on_of_nodup_map t.keysNodup hr hq h

theorem rowsNodup (t : Table key) : t.rows.Nodup := List.Nodup.of_map key t.keysNodup

/-- Some row has this key. -/
def HasKey (t : Table key) (k : κ) : Prop := k ∈ t.rows.map key

instance [DecidableEq κ] (t : Table key) (k : κ) : Decidable (t.HasKey k) :=
  inferInstanceAs (Decidable (k ∈ t.rows.map key))

variable {k : κ}

theorem hasKey_iff : t.HasKey k ↔ ∃ r ∈ t, key r = k := mem_map

theorem hasKey_of_mem (h : r ∈ t) : t.HasKey (key r) :=
  mem_map_of_mem h

@[simp] theorem not_hasKey_empty (k : κ) : ¬ (empty key).HasKey k := by simp [HasKey]

/-- `UPDATE`: every row is rewritten, none loses its key. -/
def mapRows (t : Table key) (f : ρ → ρ) (hf : ∀ r, key (f r) = key r) : Table key where
  rows := t.rows.map f
  keysNodup := by
    have hkeys : (t.rows.map f).map key = t.rows.map key := by
      rw [map_map]; exact map_congr_left fun r _ => hf r
    exact hkeys ▸ t.keysNodup

@[simp] theorem mem_mapRows (t : Table key) (f : ρ → ρ) (hf : ∀ r, key (f r) = key r) (q : ρ) :
    q ∈ t.mapRows f hf ↔ ∃ r ∈ t, f r = q := mem_map

@[simp] theorem hasKey_mapRows (t : Table key) (f : ρ → ρ) (hf : ∀ r, key (f r) = key r) (k : κ) :
    (t.mapRows f hf).HasKey k ↔ t.HasKey k := by
  simp only [hasKey_iff,mem_mapRows]
  constructor
  · rintro ⟨_,⟨r,hr,rfl⟩,hk⟩; exact ⟨r,hr,hf r ▸ hk⟩
  · rintro ⟨r,hr,hk⟩; exact ⟨f r,⟨r,hr,rfl⟩,(hf r).trans hk⟩

/-- `DELETE … WHERE NOT keep`. -/
def keepRows (t : Table key) (keep : ρ → Bool) : Table key where
  rows := t.rows.filter keep
  keysNodup := t.keysNodup.sublist (filter_sublist.map key)

@[simp] theorem mem_keepRows {keep : ρ → Bool} :
    q ∈ t.keepRows keep ↔ q ∈ t ∧ keep q := mem_filter

theorem hasKey_keepRows {keep : ρ → Bool} : (t.keepRows keep).HasKey k ↔ ∃ r ∈ t, keep r ∧ key r = k := by
  simp [hasKey_iff,and_assoc]

variable [DecidableEq κ]

/-- `SELECT … WHERE key = k`. -/
def find? (t : Table key) (k : κ) : Option ρ := t.rows.find? fun r => key r = k

theorem find?_eq_some_iff : t.find? k = some r ↔ r ∈ t ∧ key r = k := by
  constructor
  · intro h
    exact ⟨mem_of_find?_eq_some h,by simpa using find?_some h⟩
  · rintro ⟨hr,rfl⟩
    cases h : t.find? (key r) with
    | none => simpa using find?_eq_none.mp h r hr
    | some q =>
      have hq : q ∈ t := mem_of_find?_eq_some h
      have hk : key q = key r := by simpa using find?_some h
      rw [t.eq_of_key_eq hq hr hk]

theorem find?_eq_none_iff : t.find? k = none ↔ ¬ t.HasKey k := by
  simp [find?,HasKey]

/-- `INSERT`: refused when the key is taken. -/
def insert (t : Table key) (r : ρ) : Option (Table key) :=
  if h : t.HasKey (key r) then none
  else some ⟨t.rows ++ [r],by
    simpa [nodup_append] using ⟨t.keysNodup,fun q hq he => h (he ▸ mem_map_of_mem hq)⟩⟩

theorem insert_eq_some_iff : t.insert r = some u ↔ ¬ t.HasKey (key r) ∧ u.rows = t.rows ++ [r] := by
  unfold insert
  split
  · simp_all
  · rename_i h
    rw [Option.some.injEq,Table.ext_iff]
    exact ⟨fun hu => ⟨h,hu.symm⟩,fun hu => hu.2.symm⟩

theorem insert_eq_none_iff : t.insert r = none ↔ t.HasKey (key r) := by
  unfold insert
  split <;> simp_all

/-- What stands in a larger table can be inserted. -/
theorem insert_of_rows_append {rs : List ρ} (h : u.rows = t.rows ++ r :: rs) : ∃ v, t.insert r = some v := by
  refine Option.ne_none_iff_exists'.mp fun hnone => ?_
  have hkeys := u.keysNodup
  rw [h,map_append] at hkeys
  exact (disjoint_of_nodup_append hkeys) (insert_eq_none_iff.mp hnone) mem_cons_self

theorem mem_insert (h : t.insert r = some u) : q ∈ u ↔ q ∈ t ∨ q = r := by
  simp [mem_iff,(insert_eq_some_iff.mp h).2]

theorem hasKey_insert (h : t.insert r = some u) : u.HasKey k ↔ t.HasKey k ∨ k = key r := by
  simp [HasKey,(insert_eq_some_iff.mp h).2]

/-- `INSERT … ON CONFLICT(key) DO UPDATE`: the row takes the place of the row with its key. -/
def put (t : Table key) (r : ρ) : Table key :=
  if h : t.HasKey (key r) then t.mapRows (fun q => if key q = key r then r else q) fun q => by
    by_cases hq : key q = key r <;> simp [hq]
  else ⟨t.rows ++ [r],by
    simpa [nodup_append] using ⟨t.keysNodup,fun q hq he => h (he ▸ mem_map_of_mem hq)⟩⟩

theorem mem_put : q ∈ t.put r ↔ q = r ∨ (q ∈ t ∧ key q ≠ key r) := by
  unfold put
  split
  · rename_i h
    rw [mem_mapRows]
    constructor
    · rintro ⟨x,hx,rfl⟩
      by_cases he : key x = key r
      · simp [he]
      · exact Or.inr (by simpa [he] using hx)
    · rintro (rfl | ⟨hq,hne⟩)
      · obtain ⟨x,hx,he⟩ := hasKey_iff.mp h
        exact ⟨x,hx,by simp [he]⟩
      · exact ⟨q,hq,by simp [hne]⟩
  · rename_i h
    rw [mem_iff,mem_append,mem_singleton]
    constructor
    · rintro (hq | rfl)
      · exact Or.inr ⟨hq,fun he => h (he ▸ hasKey_of_mem hq)⟩
      · exact Or.inl rfl
    · rintro (rfl | ⟨hq,-⟩)
      · exact Or.inr rfl
      · exact Or.inl hq

theorem hasKey_put : (t.put r).HasKey k ↔ k = key r ∨ t.HasKey k := by
  simp only [hasKey_iff,mem_put]
  constructor
  · rintro ⟨q,rfl | ⟨hq,-⟩,rfl⟩
    · exact Or.inl rfl
    · exact Or.inr ⟨q,hq,rfl⟩
  · rintro (rfl | ⟨q,hq,rfl⟩)
    · exact ⟨r,Or.inl rfl,rfl⟩
    · by_cases he : key q = key r
      · exact ⟨r,Or.inl rfl,he.symm⟩
      · exact ⟨q,Or.inr ⟨hq,he⟩,rfl⟩

theorem find?_put (t : Table key) (r : ρ) (k : κ) :
    (t.put r).find? k = if k = key r then some r else t.find? k := by
  ext q
  rw [find?_eq_some_iff,mem_put]
  split
  · rename_i he
    subst he
    constructor
    · rintro ⟨rfl | ⟨-,hne⟩,hq⟩
      · rfl
      · exact absurd hq hne
    · rintro ⟨⟩
      exact ⟨Or.inl rfl,rfl⟩
  · rename_i hne
    rw [find?_eq_some_iff]
    constructor
    · rintro ⟨rfl | ⟨hq,-⟩,rfl⟩
      · exact absurd rfl hne
      · exact ⟨hq,rfl⟩
    · rintro ⟨hq,rfl⟩
      exact ⟨Or.inr ⟨hq,hne⟩,rfl⟩

theorem find?_mapRows (t : Table key) (f : ρ → ρ) (hf : ∀ r, key (f r) = key r) (k : κ) :
    (t.mapRows f hf).find? k = (t.find? k).map f := by
  ext q
  simp only [find?_eq_some_iff,mem_mapRows,Option.map_eq_some_iff]
  constructor
  · rintro ⟨⟨r,hr,rfl⟩,hk⟩; exact ⟨r,⟨hr,hf r ▸ hk⟩,rfl⟩
  · rintro ⟨r,⟨hr,hk⟩,rfl⟩; exact ⟨⟨r,hr,rfl⟩,(hf r).trans hk⟩

theorem find?_keepRows (t : Table key) (gone : κ → Bool) (k : κ) :
    (t.keepRows fun r => !gone (key r)).find? k = if gone k then none else t.find? k := by
  ext q
  simp only [find?_eq_some_iff,mem_keepRows]
  split
  · rename_i hk
    simp only [reduceCtorEq,iff_false,not_and]
    rintro ⟨-,hkeep⟩ rfl
    simp [hk] at hkeep
  · rename_i hk
    rw [find?_eq_some_iff]
    constructor
    · rintro ⟨⟨hq,-⟩,rfl⟩; exact ⟨hq,rfl⟩
    · rintro ⟨hq,rfl⟩; exact ⟨⟨hq,by simpa using hk⟩,rfl⟩

end Table
end Mxterm
