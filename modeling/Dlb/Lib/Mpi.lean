import Mathlib.Data.List.Nodup
import Mathlib.Data.List.Range

/-!
# Derived datatypes, and the contract of a gather

A datatype of MPI is a list of basic types with their displacements (`typemap`) and an extent, which is the distance of
two elements in an array. Its signature is the list of the basic types alone. Structures are made of blocks.

`IsGather` is what the standard says of `MPI_Gather` with one element from each sender: if all signatures are the one of the
root, the element of sender `i` comes to lie `i` extents behind the start of the receive buffer, as the root's type lays it
out. Nothing is said about senders with another signature. `gather` is a function with this contract that computes.
-/

namespace Lib.Mpi

inductive Basic where
  | int
  | int64
  | integer (bytes : ℕ)
deriving DecidableEq

structure Datatype where
  typemap : List (Basic × ℕ)
  extent : ℕ
deriving DecidableEq

/-- An array of elements of one type within a structure. -/
structure Block where
  blocklength : ℕ
  displacement : ℕ
  type : Datatype

/-- The content of an array of `n` elements at `displacement`. -/
def Datatype.entries (t : Datatype) (n displacement : ℕ) : List (Basic × ℕ) :=
  (List.range n).flatMap fun k => t.typemap.map fun (b, d) => (b, displacement + (t.extent * k + d))

namespace Datatype

def basic (b : Basic) (size : ℕ) : Datatype := ⟨[(b, 0)], size⟩

/-- `MPI_Type_create_struct` -/
def createStruct (blocks : List Block) : Datatype where
  typemap := blocks.flatMap fun block => block.type.entries block.blocklength block.displacement
  extent := blocks.foldl (fun m block => max m (block.displacement + block.blocklength * block.type.extent)) 0

/-- `MPI_Type_create_resized`, for the lower bound 0. -/
def createResized (t : Datatype) (extent : ℕ) : Datatype := { t with extent := extent }

def signature (t : Datatype) : List Basic := t.typemap.map Prod.fst

/-- No place of an array of the type is written twice. -/
structure Apart (t : Datatype) : Prop where
  nodup : (t.typemap.map Prod.snd).Nodup
  lt_extent : ∀ e ∈ t.typemap, e.2 < t.extent

end Datatype

/-- Memory, by the byte at which a value starts. -/
structure Buffer where
  size : ℕ
  cell : ℕ → Option ℤ

structure Message where
  type : Datatype
  buffer : Buffer

/-- **The contract of `MPI_Gather`** with the root's type, the messages of the senders, and the root's receive buffer. -/
structure IsGather (gather : Datatype → List Message → Buffer → Buffer) : Prop where
  size : ∀ root sends recv, (gather root sends recv).size = recv.size
  place : ∀ (root : Datatype) (sends : List Message) (recv : Buffer), root.Apart →
    (∀ send ∈ sends, send.type.signature = root.signature) → sends.length * root.extent ≤ recv.size →
    ∀ {i k : ℕ} {send : Message} {e e' : Basic × ℕ}, sends[i]? = some send → root.typemap[k]? = some e →
      send.type.typemap[k]? = some e' → (gather root sends recv).cell (root.extent * i + e.2) = send.buffer.cell e'.2

/-- A gather that computes each place of the receive buffer. -/
def gather (root : Datatype) (sends : List Message) (recv : Buffer) : Buffer where
  size := recv.size
  cell o :=
    match sends[o / root.extent]? with
    | none => recv.cell o
    | some send =>
      match send.type.typemap[(root.typemap.map Prod.snd).idxOf (o % root.extent)]? with
      | none => recv.cell o
      | some e => send.buffer.cell e.2

theorem gather_isGather : IsGather gather where
  size _ _ _ := rfl
  place root sends recv hapart _ _ {i k send e e'} hsend he he' := by
    obtain ⟨hk, he⟩ := List.getElem?_eq_some_iff.mp he
    have hlt : e.2 < root.extent := hapart.lt_extent e (he ▸ List.getElem_mem hk)
    have hdiv : (root.extent * i + e.2) / root.extent = i := by
      rw [Nat.mul_add_div (by omega), Nat.div_eq_of_lt hlt, Nat.add_zero]
    have hmod : (root.extent * i + e.2) % root.extent = e.2 := by
      rw [Nat.mul_add_mod, Nat.mod_eq_of_lt hlt]
    have hidx : (root.typemap.map Prod.snd).idxOf e.2 = k := by
      have hk' : k < (root.typemap.map Prod.snd).length := by rwa [List.length_map]
      have hget : (root.typemap.map Prod.snd)[k] = e.2 := by rw [List.getElem_map, he]
      rw [← hget]
      exact hapart.nodup.idxOf_getElem k hk'
    simp only [gather, hdiv, hmod, hidx, hsend, he']

theorem IsGather.same {gather : Datatype → List Message → Buffer → Buffer} (h : IsGather gather) {root : Datatype}
    {sends : List Message} {recv : Buffer} (hapart : root.Apart) (hsame : ∀ send ∈ sends, send.type = root)
    (hsize : sends.length * root.extent ≤ recv.size) {i : ℕ} {send : Message} {e : Basic × ℕ}
    (hsend : sends[i]? = some send) (he : e ∈ root.typemap) :
    (gather root sends recv).cell (root.extent * i + e.2) = send.buffer.cell e.2 := by
  obtain ⟨k, hk⟩ := List.mem_iff_getElem?.mp he
  have htype : send.type = root := hsame send (List.mem_of_getElem? hsend)
  exact h.place root sends recv hapart (fun send hmem => congrArg Datatype.signature (hsame send hmem)) hsize hsend hk
    (htype ▸ hk)

end Lib.Mpi
