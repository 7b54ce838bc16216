import Anfs.File.Actions
import Anfs.Rpc.Client

/-!
# Reading from the server

`nfs_MRead` asks for at most the configured size at a time and goes on behind what it got,
until the count is reached or a reply has no data.
-/
namespace Anfs.File
open Anfs.Nfs Anfs.Buf

/-- The `readres` of a reply. -/
structure ReadRes where
  status : Nfsstat
  size : UInt32
  data : List UInt8
  deriving DecidableEq, Repr

/-- The reply to request number `k`, by its offset and count; an error is what
`CLIENTERROR` stores. -/
abbrev ReadReplies := Nat → UInt32 → UInt32 → Except Int ReadRes

/-- The loop of `nfs_MRead`: `data` has been stored at `Buf` so far, `size` is the size in
the last reply. A reply is decoded straight into the caller's memory. -/
def mReadLoop (maxRead : Nat) (replies : ReadReplies) :
    Nat → Nat → UInt32 → Nat → List UInt8 → UInt32 → Except Fault ReadAnswer
  | n, k, offset, count, data, size =>
    if count = 0 then
      .ok (.done (fun i => data.getD i 0) data.length (long size.toNat))
    else
      match n with
      | 0 => .error .endless
      | n + 1 =>
          match replies k offset (UInt32.ofNat (min count maxRead)) with
          | .error res2 => .ok (.failed res2)
          | .ok res =>
              if res.status ≠ .ok then .ok (.failed (nfsErr2IoErrCont res.status .read))
              else if res.data.length = 0 then
                .ok (.done (fun i => data.getD i 0) data.length (long res.size.toNat))
              else if count < res.data.length then .error .overrun
              else
                mReadLoop maxRead replies n (k + 1) (offset + UInt32.ofNat res.data.length)
                  (count - res.data.length) (data ++ res.data) res.size

/-- `nfs_MRead`; `ng_MaxReadSize` is `maxReadSize`. Each turn but the last gets at least one
byte. -/
def nfsMRead (maxReadSize : Nat) (replies : ReadReplies) (offset : UInt32) (count : Nat) :
    Except Fault ReadAnswer :=
  mReadLoop (min maxReadSize nfsMaxdata) replies count 0 offset count [] 0

/-- The `n` bytes of a file from `x` on. -/
def fileBytes (f : SrvFile) (x n : Nat) : List UInt8 := (List.range n).map fun i => f.bytes (x + i)

/-- The server reads from `f`. It may return less than was asked for, by `short k` bytes in
reply `k`, but something as long as there is something behind the offset. -/
def serveRead (f : SrvFile) (short : Nat → Nat) : ReadReplies := fun k offset count =>
  let avail := min count.toNat (f.size - offset.toNat)
  .ok ⟨.ok, UInt32.ofNat f.size, fileBytes f offset.toNat (avail - min (short k) (avail - 1))⟩

/-- How a server can refuse a request: the call fails, or it is answered by another status. -/
inductive Refusal
  | call (res2 : Int)
  | status (status : Nfsstat) (notOk : status ≠ .ok)

/-- A server that reads from `f`, but refuses some of the requests. -/
def serveSome (f : SrvFile) (short : Nat → Nat) (refuse : Nat → Option Refusal) : ReadReplies :=
  fun k offset count =>
    match refuse k with
    | some (.call res2) => .error res2
    | some (.status status _) => .ok ⟨status, 0, []⟩
    | none => serveRead f short k offset count

/-- What is read from `f` at `offset`: the bytes up to the count or the end of the file. -/
structure ReadsFrom (f : SrvFile) (offset count : Nat) (ans : ReadAnswer) : Prop where
  done : ∃ data fileLen, ans = .done data (min count (f.size - offset)) fileLen ∧
    fileLen = long f.size ∧
    ∀ i, i < min count (f.size - offset) → data i = f.bytes (offset + i)

section Served
variable {f : SrvFile}

@[simp] theorem fileBytes_length (x n : Nat) : (fileBytes f x n).length = n := by
  simp [fileBytes]

theorem fileBytes_append (x m n : Nat) :
    fileBytes f x m ++ fileBytes f (x + m) n = fileBytes f x (m + n) := by
  simp only [fileBytes, List.range_add, List.map_append, List.map_map]
  congr 1
  refine List.map_congr_left fun i _ => ?_
  simp only [Function.comp_apply, Nat.add_assoc]

theorem fileBytes_getD {x n i : Nat} (h : i < n) :
    (fileBytes f x n).getD i 0 = f.bytes (x + i) := by
  simp [fileBytes, List.getD_eq_getElem?_getD, h]

theorem readsFrom_range {x count : Nat} :
    ReadsFrom f x count
      (.done (fun i => (fileBytes f x (min count (f.size - x))).getD i 0)
        (fileBytes f x (min count (f.size - x))).length (long f.size)) := by
  refine ⟨_, _, by rw [fileBytes_length], rfl, fun i hi => ?_⟩
  exact fileBytes_getD hi

/-- A read ends with the bytes of the file, or with a refusal. -/
def Ends (f : SrvFile) (refuse : Nat → Option Refusal) (offset count : Nat)
    (ans : ReadAnswer) : Prop :=
  ReadsFrom f offset count ans ∨ (∃ res2, ans = .failed res2) ∧ ∃ k, refuse k ≠ none

theorem mReadLoop_served {maxRead : Nat} (hmax : 0 < maxRead) (hmax' : maxRead < 4294967296)
    (hsize : f.size < 4294967296) (short : Nat → Nat) (refuse : Nat → Option Refusal)
    (x total : Nat) (n : Nat) :
    ∀ k got (offset : UInt32), offset.toNat = x + got → total - got ≤ n → got ≤ total →
      (0 < got → x + got ≤ f.size) → ∀ size, (got = total → size = UInt32.ofNat f.size) →
      ∃ ans, mReadLoop maxRead (serveSome f short refuse) n k offset (total - got)
        (fileBytes f x got)
        size = .ok ans ∧ Ends f refuse x total ans := by
  have hnat : (UInt32.ofNat f.size).toNat = f.size := by
    rw [UInt32.toNat_ofNat']
    exact Nat.mod_eq_of_lt hsize
  have hends : ∀ got, got ≤ total → (0 < got → x + got ≤ f.size) →
      (got = total ∨ f.size ≤ x + got) →
      ReadsFrom f x total (.done (fun i => (fileBytes f x got).getD i 0)
        (fileBytes f x got).length (long (UInt32.ofNat f.size).toNat)) := by
    intro got hle hin hend
    have hgot : got = min total (f.size - x) := by omega
    rw [hgot, hnat]
    exact readsFrom_range
  induction n with
  | zero =>
      intro k got offset hoff hn hle hin size hs
      obtain rfl : got = total := by omega
      unfold mReadLoop
      rw [if_pos (by omega), hs rfl]
      exact ⟨_, rfl, .inl (hends got hle hin (.inl rfl))⟩
  | succ n ih =>
      intro k got offset hoff hn hle hin size hs
      unfold mReadLoop
      by_cases h0 : total - got = 0
      · rw [if_pos h0, hs (by omega)]
        exact ⟨_, rfl, .inl (hends got hle hin (.inl (by omega)))⟩
      rw [if_neg h0]
      unfold serveSome
      cases hrefuse : refuse k with
      | some r =>
          cases r with
          | call res2 =>
              exact ⟨_, rfl, .inr ⟨⟨_, rfl⟩, k, by rw [hrefuse]; exact Option.some_ne_none _⟩⟩
          | status status hstatus =>
              refine ⟨_, if_pos hstatus, .inr
                ⟨⟨_, rfl⟩, k, by rw [hrefuse]; exact Option.some_ne_none _⟩⟩
      | none =>
        have hcount : (UInt32.ofNat (min (total - got) maxRead)).toNat =
            min (total - got) maxRead := by
          rw [UInt32.toNat_ofNat']
          exact Nat.mod_eq_of_lt (by omega)
        have hlast := hends got hle hin
        rw [fileBytes_length] at hlast
        simp only [serveRead, hcount, hoff, fileBytes_length, ne_eq, not_true_eq_false,
          if_false]
        generalize hlen : min (min (total - got) maxRead) (f.size - (x + got)) -
          min (short k) (min (min (total - got) maxRead) (f.size - (x + got)) - 1) = len
        by_cases hz : len = 0
        · rw [if_pos hz]
          exact ⟨_, rfl, .inl (hlast (.inr (by omega)))⟩
        · rw [if_neg hz, if_neg (by omega), fileBytes_append, Nat.sub_sub]
          refine ih (k + 1) (got + len) _ ?_ (by omega) (by omega) (by omega) _ fun _ => rfl
          rw [UInt32.toNat_add, hoff, UInt32.toNat_ofNat']
          omega

/-- From a server that may refuse requests, `nfs_MRead` gets the bytes of the file or an error. -/
theorem nfsMRead_served_or {maxReadSize : Nat} (hmax : 0 < maxReadSize)
    (hsize : f.size < 4294967296)
    (short : Nat → Nat) (refuse : Nat → Option Refusal) (offset : UInt32) {count : Nat}
    (hcount : 0 < count) :
    ∃ ans, nfsMRead maxReadSize (serveSome f short refuse) offset count = .ok ans ∧
      Ends f refuse offset.toNat count ans := by
  have hmaxdata : nfsMaxdata = 8192 := rfl
  have h := mReadLoop_served (show 0 < min maxReadSize nfsMaxdata by omega) (by omega)
    hsize short refuse
    offset.toNat count count 0 0 offset rfl (by omega) (by omega) (by omega) 0 (by omega)
  exact h

/-- From a server that answers, `nfs_MRead` gets the bytes of the file. -/
theorem nfsMRead_served {maxReadSize : Nat} (hmax : 0 < maxReadSize) (hsize : f.size < 4294967296)
    (short : Nat → Nat) (offset : UInt32) {count : Nat} (hcount : 0 < count) :
    ∃ ans, nfsMRead maxReadSize (serveRead f short) offset count = .ok ans ∧
      ReadsFrom f offset.toNat count ans := by
  obtain ⟨ans, hrun, hends | ⟨-, k, hk⟩⟩ :=
    nfsMRead_served_or hmax hsize short (fun _ => none) offset hcount
  · exact ⟨ans, hrun, hends⟩
  · exact absurd rfl hk

end Served

end Anfs.File
