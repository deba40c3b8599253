import NtAdmin.Sched.SvcCore.Sai

/-! What the blocks of well formed databases look like. -/
namespace NtAdmin.Sched
open Lib

structure Credential where
  identity : Bytes
  data : Bytes

/-- The update sequence number, of which only the first byte counts, and the number of entries. -/
def header (usn : UInt8) (n : ℕ) : Bytes := [usn, 0, 0, 0] ++ dword n

def packCredential (c : Credential) : Bytes :=
  dword (hashDataSize + c.data.length) ++ (c.identity ++ c.data)

def packCredentials (cs : List Credential) : Bytes := cs.flatMap packCredential

def packSac (usn : UInt8) (cs : List Credential) : Bytes := header usn cs.length ++ packCredentials cs

def packSet (ids : List Bytes) : Bytes := dword ids.length ++ ids.flatten

def packSets (sets : List (List Bytes)) : Bytes := sets.flatMap packSet

def packSai (usn : UInt8) (sets : List (List Bytes)) : Bytes :=
  header usn sets.length ++ packSets sets

@[simp] theorem length_header (usn : UInt8) (n : ℕ) : (header usn n).length = 8 := rfl

@[simp] theorem packCredentials_nil : packCredentials [] = [] := rfl

@[simp] theorem packCredentials_cons (c : Credential) (cs : List Credential) :
    packCredentials (c :: cs) = packCredential c ++ packCredentials cs := rfl

@[simp] theorem packCredentials_append (cs ds : List Credential) :
    packCredentials (cs ++ ds) = packCredentials cs ++ packCredentials ds := List.flatMap_append

@[simp] theorem packSets_nil : packSets [] = [] := rfl

@[simp] theorem packSets_cons (s : List Bytes) (sets : List (List Bytes)) :
    packSets (s :: sets) = packSet s ++ packSets sets := rfl

@[simp] theorem packSets_append (sets sets' : List (List Bytes)) :
    packSets (sets ++ sets') = packSets sets ++ packSets sets' := List.flatMap_append

theorem length_flatten_of_sized {ids : List Bytes} (h : ∀ x ∈ ids, x.length = hashDataSize) :
    ids.flatten.length = hashDataSize * ids.length := by
  induction ids with
  | nil => rfl
  | cons x ids ih =>
    have hx := h x List.mem_cons_self
    have hids := ih fun y hy => h y (List.mem_cons_of_mem x hy)
    rw [List.flatten_cons, List.length_append, hx, hids, List.length_cons, Nat.mul_succ,
      Nat.add_comm]

theorem length_packCredential {c : Credential} (h : c.identity.length = hashDataSize) :
    (packCredential c).length = 4 + (hashDataSize + c.data.length) := by
  rw [packCredential, List.length_append, List.length_append, length_dword, h]

theorem length_packSet {ids : List Bytes} (h : ∀ x ∈ ids, x.length = hashDataSize) :
    (packSet ids).length = 4 + hashDataSize * ids.length := by
  rw [packSet, List.length_append, length_dword, length_flatten_of_sized h]

theorem length_le_packCredentials (cs : List Credential) :
    cs.length ≤ (packCredentials cs).length := by
  induction cs with
  | nil => exact Nat.le_refl 0
  | cons c cs ih =>
    have hc : 4 ≤ (packCredential c).length := by
      rw [packCredential, List.length_append, length_dword]
      exact Nat.le_add_right 4 _
    rw [packCredentials_cons, List.length_append, List.length_cons]
    omega

theorem length_le_packSets (sets : List (List Bytes)) : sets.length ≤ (packSets sets).length := by
  induction sets with
  | nil => exact Nat.le_refl 0
  | cons s sets ih =>
    have hs : 4 ≤ (packSet s).length := by
      rw [packSet, List.length_append, length_dword]
      exact Nat.le_add_right 4 _
    rw [packSets_cons, List.length_append, List.length_cons]
    omega

theorem length_packSac (usn : UInt8) (cs : List Credential) :
    (packSac usn cs).length = 8 + (packCredentials cs).length := by
  rw [packSac, List.length_append, length_header]

theorem length_packSai (usn : UInt8) (sets : List (List Bytes)) :
    (packSai usn sets).length = 8 + (packSets sets).length := by
  rw [packSai, List.length_append, length_header]

/-- The number of entries of a block. -/
theorem getDword_header {usn : UInt8} {n : ℕ} {bs : Bytes} (h : n < 2 ^ 32) :
    getDword (header usn n ++ bs) usnSize = n :=
  getDword_mid (u := [usn, 0, 0, 0]) (v := bs) rfl rfl h

/-- A new number of entries. -/
theorem copyAt_header (usn : UInt8) (n m : ℕ) (bs : Bytes) :
    copyAt (header usn n ++ bs) usnSize (dword m) = header usn m ++ bs :=
  copyAt_mid (u := [usn, 0, 0, 0]) (w := dword n) (v := bs) rfl rfl rfl

/-- A block with room at its end, under a new number of entries. A block of no size gets its header
first. -/
theorem makeRoom_spec {usn : UInt8} {f : ℕ → UInt8} {pb bs : Bytes} {n : ℕ} (m : ℕ)
    (hpb : pb = [] ∧ usn = 0 ∧ n = 0 ∧ bs = [] ∨ pb = header usn n ++ bs) (k : ℕ) :
    ∃ v : Bytes, v.length = k ∧ makeRoom f pb (pb.length + k) 8 = header usn n ++ bs ++ v ∧
      copyAt (makeRoom f pb (pb.length + k) 8) usnSize (dword m) =
        header usn m ++ bs ++ v := by
  have hroom : ∃ v : Bytes, v.length = k ∧
      makeRoom f pb (pb.length + k) 8 = header usn n ++ bs ++ v := by
    cases hpb with
    | inl h =>
      obtain ⟨rfl, rfl, rfl, rfl⟩ := h
      obtain ⟨v, hv, hgrow⟩ := resize_grow f [] (Nat.zero_le (0 + k + 8))
      obtain ⟨v', hv', hfill⟩ := copyAt_fill (u := []) (n := k) hgrow rfl
        (show v.length = (List.replicate 8 (0 : UInt8)).length + k by rw [hv]; simp; omega)
      exact ⟨v', hv', hfill⟩
    | inr h =>
      have hne : pb.length ≠ 0 := by
        rw [h, List.length_append, length_header]
        omega
      obtain ⟨v, hv, hgrow⟩ := resize_grow f pb (Nat.le_add_right pb.length k)
      refine ⟨v, by rw [hv, Nat.add_sub_cancel_left], ?_⟩
      rw [makeRoom, if_neg hne, hgrow, h]
  obtain ⟨v, hv, heq⟩ := hroom
  refine ⟨v, hv, heq, ?_⟩
  rw [heq, List.append_assoc, copyAt_header, List.append_assoc]

end NtAdmin.Sched
