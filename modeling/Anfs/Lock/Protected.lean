import Anfs.Lock.Requests

/-!
# Write protection

While `ACTION_WRITE_PROTECT` protects the volume, `act_Prepare` refuses the actions whose row has
the write flag. The row of `ACTION_FINDUPDATE` does not have it, and the action creates a file that
it does not find.
-/
namespace Anfs.Lock
open Anfs.Cache Anfs.Lib Anfs.Nfs Anfs.Path Anfs.Tree Anfs.Xdr

/-- The row of the packet in `ActionTable` has the flag `WF`. -/
def Event.wf : Event → Bool
  | .packet (.findOutput ..) | .createDir .. => true
  | .packet _ | .onName (.getAttributes ..) _ => false
  | .onName .. => true

/-- The handler with `GF_IS_WRITE_PROTECTED` and `g_LockKey`. -/
structure Volume (σ : Type) where
  session : Session σ
  gIsWriteProtected : Bool
  gLockKey : UInt32

/-- A round of the main loop, or one with `ACTION_WRITE_PROTECT`. -/
inductive VolumeTurn
  | turn (t : Turn)
  | writeProtect (flag : Int) (key : UInt32)

/-- `ACTION_WRITE_PROTECT` with this key and without the flag. -/
def VolumeTurn.unlocks (key : UInt32) : VolumeTurn → Bool
  | .turn _ => false
  | .writeProtect flag key' => flag ≠ -1 ∧ key' = key

/-- LOOKUP does not know the name. -/
def notFound : Except Int Diropokres → Bool
  | .error res2 => res2 = errorObjectNotFound
  | .ok _ => false

section Turns
variable {σ : Type} (w : ObjRequests σ) (addPart : List UInt8 → List UInt8 → Nat →
  Option (List UInt8))

/-- `act_FINDUPDATE` finds the directory of the name, but not the name. -/
def Global.misses (g : Global σ) (fl : Option Nat) (cbstr : List UInt8) : Bool :=
  let r := g.lRootLocateDir w.toWorld addPart fl cbstr
  r.1.toOption.any fun at_ =>
    notFound (w.lookup r.2.caches.env (r.2.caches.dces at_.parDir).nfsFh (textOf at_.name)).1

namespace Volume
variable (v : Volume σ)

def setRes (res1 : Res1) (res2 : Int) : Volume σ :=
  { v with session := { v.session with g := v.session.g.setRes res1 res2 } }

def setRes1 (res1 : Res1) : Volume σ :=
  { v with session := { v.session with g := v.session.g.setRes1 res1 } }

/-- `act_WRITE_PROTECT`. -/
def actWRITEPROTECT (flag : Int) (key : UInt32) : Volume σ :=
  if flag = -1 then
    if v.gIsWriteProtected then v.setRes DOSFALSE errorDiskWriteProtected
    else { v with gIsWriteProtected := true, gLockKey := key }.setRes1 DOSTRUE
  else if v.gIsWriteProtected then
    if key ≠ v.gLockKey then v.setRes DOSFALSE errorRequiredArgMissing
    else { v with gIsWriteProtected := false }.setRes1 DOSTRUE
  else v.setRes1 DOSTRUE

/-- What `act_Prepare` calls for a packet: its action, or `act_IS_WRITE_PROTECTED`. -/
def serveTurn : VolumeTurn → Option (Volume σ)
  | .writeProtect flag key => some (v.actWRITEPROTECT flag key)
  | .turn (.event e) =>
      if v.gIsWriteProtected = true ∧ e.wf = true then
        some (v.setRes DOSFALSE errorDiskWriteProtected)
      else some { v with session := v.session.serveEvent w addPart e }
  | .turn t => (v.session.serveTurn w addPart t).map fun session => { v with session }

/-- One round of the main loop; none if it does not return. -/
def turn (t : VolumeTurn) : Option (Volume σ) :=
  if v.session.g.running then
    (v.serveTurn w addPart t).bind fun v =>
      (v.session.unLockAll w).map fun session => { v with session }
  else some v

/-- The packet is no `ACTION_FINDUPDATE` that does not find its file. -/
def finds : VolumeTurn → Bool
  | .turn (.event (.packet (.findUpdate fl cbstr))) =>
      !v.session.g.running || !v.session.g.misses w addPart fl cbstr
  | _ => true

end Volume

end Turns

namespace Request

def isFlush : Request → Bool
  | flush _ => true
  | _ => false

/-- The CREATE of `act_FINDUPDATE`, which leaves the size open. -/
def isCreate : Request → Bool
  | create _ _ _ _ _ size => size = 4294967295
  | _ => false

end Request

/-- What was sent in between are requests that empty buffers and the CREATE of `act_FINDUPDATE`; all
of it empties buffers if and only if `ok` holds. -/
def Sent (ok : Prop) (before after : List Request) : Prop :=
  ∃ sent, after = sent ++ before ∧ (∀ r ∈ sent, r.isFlush = true ∨ r.isCreate = true) ∧
    ((∀ r ∈ sent, r.isFlush = true) ↔ ok)

namespace Sent
variable {ok ok' : Prop} {before after after' : List Request}

theorem flushes (hok : ok) {sent : List Request} (hflush : ∀ r ∈ sent, r.isFlush = true) :
    Sent ok before (sent ++ before) :=
  ⟨sent, rfl, fun r hr => .inl (hflush r hr), iff_of_true hflush hok⟩

theorem flush {r : Request} (h : Sent True before after) (hr : r.isFlush = true) :
    Sent True before (r :: after) := by
  obtain ⟨sent, rfl, -, hiff⟩ := h
  have hall : ∀ r' ∈ r :: sent, r'.isFlush = true := List.forall_mem_cons.mpr ⟨hr, hiff.mpr trivial⟩
  exact flushes trivial hall

theorem nothing (hok : ok) : Sent ok before before :=
  ⟨[], rfl, List.forall_mem_nil _, iff_of_true (List.forall_mem_nil _) hok⟩

theorem create (hok : ¬ ok) (dirFh name : List UInt8) (uid gid mode : UInt32) :
    Sent ok before (.create dirFh name uid gid mode 4294967295 :: before) := by
  refine ⟨[_], rfl, List.forall_mem_singleton.mpr (.inr rfl), iff_of_false ?_ hok⟩
  intro h
  cases List.forall_mem_singleton.mp h

theorem congr (h : Sent ok before after) (hok : ok ↔ ok') : Sent ok' before after := by
  obtain ⟨sent, heq, hkind, hiff⟩ := h
  exact ⟨sent, heq, hkind, hiff.trans hok⟩

theorem trans (h : Sent ok before after) (h' : Sent ok' after after') :
    Sent (ok ∧ ok') before after' := by
  obtain ⟨sent, rfl, hkind, hiff⟩ := h
  obtain ⟨sent', rfl, hkind', hiff'⟩ := h'
  refine ⟨sent' ++ sent, (List.append_assoc ..).symm,
    List.forall_mem_append.mpr ⟨hkind', hkind⟩, ?_⟩
  rw [List.forall_mem_append, hiff, hiff', and_comm]

end Sent

section Protected
variable {σ : Type} {w : ObjRequests σ} {addPart : List UInt8 → List UInt8 → Nat →
  Option (List UInt8)}

namespace Global
variable (g : Global (σ × List Request))

theorem findOrCreate_sent (dirFh name : List UInt8) :
    Sent (notFound (w.logged.lookup g.caches.env dirFh name).1 = false) g.caches.env.2
      (g.findOrCreate w.logged.toRequests dirFh name MODE_READWRITE).2.caches.env.2 := by
  have hasked : (w.logged.lookup g.caches.env dirFh name).2.2 = g.caches.env.2 := rfl
  unfold findOrCreate
  generalize w.logged.lookup g.caches.env dirFh name = q at hasked ⊢
  obtain ⟨res2 | dres, env⟩ := q
  · rw [← hasked]
    dsimp only
    split
    · next hmissing => exact Sent.create (by simp [notFound, hmissing.1]) _ _ _ _ _
    · next hother => exact Sent.nothing (decide_eq_false fun h => hother ⟨h, rfl⟩)
  · rw [← hasked]
    exact Sent.nothing rfl

/-- What `act_FINDUPDATE` sends. -/
theorem actFINDUPDATE_sent (fl : Option Nat) (cbstr : List UInt8) :
    Sent (g.misses w.logged addPart fl cbstr = false) g.caches.env.2
      (g.actFINDUPDATE w.logged.toRequests addPart fl cbstr).2.caches.env.2 := by
  have hasked : (g.lRootLocateDir w.logged.toWorld addPart fl cbstr).2.caches.env.2 =
    g.caches.env.2 :=
    lRootLocateDir_env (w.keeps_logged fun sent => sent = g.caches.env.2) rfl fl cbstr
  unfold actFINDUPDATE actFINDREADWRITE misses
  generalize g.lRootLocateDir w.logged.toWorld addPart fl cbstr = q at hasked ⊢
  obtain ⟨res2 | at_, g₁⟩ := q
  · show Sent _ _ g₁.caches.env.2
    rw [hasked]
    exact Sent.nothing rfl
  have hsent := g₁.findOrCreate_sent (w := w) (g₁.caches.dces at_.parDir).nfsFh (textOf at_.name)
  rw [hasked] at hsent
  dsimp only [Except.toOption, Option.any_some]
  generalize g₁.findOrCreate w.logged.toRequests (g₁.caches.dces at_.parDir).nfsFh (textOf at_.name)
    MODE_READWRITE = q at hsent ⊢
  obtain ⟨res2 | dres, g₂⟩ := q
  · exact hsent
  obtain ⟨hcaches, -, -⟩ := openFound_caches (g := g₂) dres at_.fullName.text (textOf at_.name)
    MODE_READWRITE EXCLUSIVE_LOCK
  dsimp only at hsent ⊢
  rw [← hcaches] at hsent
  generalize g₂.openFound dres at_.fullName.text (textOf at_.name) MODE_READWRITE
    EXCLUSIVE_LOCK = q at hsent ⊢
  obtain ⟨res2 | efhId, g₃⟩ := q
  · exact hsent
  · exact hsent

end Global

/-- An action without the write flag empties buffers at most, unless it is `act_FINDUPDATE`. -/
theorem Event.isFlush_of_sends {e : Event} (hwf : e.wf = false)
    (hupdate : ∀ fl cbstr, e ≠ .packet (.findUpdate fl cbstr))
    {r : Request} (hr : e.sends r = true) : r.isFlush = true := by
  cases e with
  | packet p =>
      cases p with
      | findUpdate fl cbstr => exact absurd rfl (hupdate fl cbstr)
      | findOutput fl cbstr => cases hwf
      | finish arg1 => cases r <;> first | rfl | cases hr
      | _ => cases hr
  | createDir fl cbstr => cases hwf
  | onName a keeps =>
      cases a with
      | getAttributes fl cbstr tags => cases hr
      | _ => cases hwf

namespace Volume
variable {v v' : Volume (σ × List Request)}

/-- The requests that the server has noted down, the last one first. -/
def sent (v : Volume (σ × List Request)) : List Request := v.session.g.caches.env.2

theorem finds_eq_true {v : Volume σ} {t : VolumeTurn}
    (ht : ∀ fl cbstr, t ≠ .turn (.event (.packet (.findUpdate fl cbstr)))) :
    v.finds w addPart t = true := by
  unfold finds
  split
  · exact absurd rfl (ht _ _)
  · rfl

/-- What empties buffers adds such requests. -/
theorem flushes_send {sends : Request → Bool} (hsends : ∀ r, sends r = true → r.isFlush = true)
    {before : List Request} :
    ∀ r, sends r = true → ∀ env : σ × List Request, Sent True before env.2 →
      Sent True before (w.logged.send env r).2 := by
  intro r hr env h
  rw [ObjRequests.send_logged]
  exact h.flush (hsends r hr)

theorem serveEvent_sent {e : Event} (hrun : v.session.g.running = true) (hwf : e.wf = false) :
    Sent (v.finds w.logged addPart (.turn (.event e)) = true) v.sent
      (v.session.serveEvent w.logged addPart e).g.caches.env.2 := by
  by_cases hupdate : ∃ fl cbstr, e = .packet (.findUpdate fl cbstr)
  · obtain ⟨fl, cbstr, rfl⟩ := hupdate
    refine (Global.actFINDUPDATE_sent v.session.g fl cbstr).congr ?_
    show _ ↔ (!v.session.g.running || !v.session.g.misses w.logged addPart fl cbstr) = true
    rw [hrun, Bool.not_true, Bool.false_or, Bool.not_eq_true']
  · have hother : ∀ fl cbstr, e ≠ .packet (.findUpdate fl cbstr) :=
      fun fl cbstr heq => hupdate ⟨fl, cbstr, heq⟩
    have hsent : Sent True v.sent (v.session.serveEvent w.logged addPart e).g.caches.env.2 :=
      Session.serveEvent_env (w.keeps_logged fun sent => Sent True v.sent sent)
        (Sent.nothing trivial)
        (flushes_send fun r => Event.isFlush_of_sends hwf hother)
    exact hsent.congr (iff_of_true trivial (finds_eq_true (by simpa using hother)))

/-- While the volume is protected, a packet without its key leaves it so. -/
theorem protected_serveTurn (hv : v.gIsWriteProtected = true)
    (hrun : v.session.g.running = true) {t : VolumeTurn}
    (hkey : t.unlocks v.gLockKey = false) (hd : v.serveTurn w.logged addPart t = some v') :
    v'.gIsWriteProtected = true ∧ v'.gLockKey = v.gLockKey ∧
      Sent (v.finds w.logged addPart t = true) v.sent v'.sent := by
  cases t with
  | writeProtect flag key =>
      obtain rfl := Option.some.inj hd
      unfold actWRITEPROTECT
      split
      · exact ⟨hv, rfl, Sent.nothing rfl⟩
      next hflag =>
      have hother : key ≠ v.gLockKey := by
        intro heq
        simp [VolumeTurn.unlocks, hflag, heq] at hkey
      rw [if_pos hother]
      exact ⟨hv, rfl, Sent.nothing rfl⟩
  | turn t =>
      have hquiet : (∀ e, t ≠ .event e) → ∀ s, v.session.serveTurn w.logged addPart t = some s →
          Sent (v.finds w.logged addPart (.turn t) = true) v.sent s.g.caches.env.2 := by
        intro ht s hs
        have hsends : ∀ r, t.sends r = true → r.isFlush = true := by
          intro r hr
          cases t with
          | event e => exact absurd rfl (ht e)
          | flush => cases r <;> first | rfl | cases hr
          | timer => cases r <;> first | rfl | cases hr
          | moreCache flushes attrs dirs => cases r <;> first | rfl | cases hr
          | attrCacheTimeout timeout => cases hr
          | dirCacheTimeout timeout => cases hr
        have hsent := Session.serveTurn_env (w.keeps_logged fun sent => Sent True v.sent sent)
          (Sent.nothing trivial)
          (flushes_send hsends) hs
        exact hsent.congr
          (iff_of_true trivial (finds_eq_true (by simpa using fun fl cbstr => ht _)))
      by_cases ht : ∀ e, t ≠ .event e
      · have hserved : (v.session.serveTurn w.logged addPart t).map
            (fun session => { v with session }) = some v' := by
          cases t with
          | event e => exact absurd rfl (ht e)
          | _ => exact hd
        obtain ⟨s, hs, rfl⟩ := Option.map_eq_some_iff.mp hserved
        exact ⟨hv, rfl, hquiet ht s hs⟩
      · obtain ⟨e, rfl⟩ := not_forall_not.mp ht
        unfold serveTurn at hd
        dsimp only at hd
        split at hd
        · next hwf =>
          obtain rfl := Option.some.inj hd
          refine ⟨hv, rfl, Sent.nothing (finds_eq_true fun fl cbstr heq => ?_)⟩
          obtain rfl := Turn.event.inj (VolumeTurn.turn.inj heq)
          cases hwf.2
        · next hwf =>
          obtain rfl := Option.some.inj hd
          have hwf : e.wf = false := Bool.of_not_eq_true fun h => hwf ⟨hv, h⟩
          exact ⟨hv, rfl, serveEvent_sent hrun hwf⟩

theorem protected_turn (hv : v.gIsWriteProtected = true) {t : VolumeTurn}
    (hkey : t.unlocks v.gLockKey = false)
    (hd : v.turn w.logged addPart t = some v') :
    v'.gIsWriteProtected = true ∧ v'.gLockKey = v.gLockKey ∧
      Sent (v.finds w.logged addPart t = true) v.sent v'.sent := by
  unfold turn at hd
  split at hd
  · next hrun =>
    obtain ⟨v₁, hserved, hunlocked⟩ := Option.bind_eq_some_iff.mp hd
    obtain ⟨s, hs, rfl⟩ := Option.map_eq_some_iff.mp hunlocked
    obtain ⟨hflag, hsame, hsent⟩ := protected_serveTurn hv hrun hkey hserved
    have hunlock : s.g.caches.env.2 = v₁.sent :=
      Session.unLockAll_env (w.keeps_logged fun sent => sent = v₁.sent) rfl hs
    refine ⟨hflag, hsame, ?_⟩
    show Sent _ _ s.g.caches.env.2
    rw [hunlock]
    exact hsent
  · next hstopped =>
    obtain rfl := Option.some.inj hd
    refine ⟨hv, rfl, Sent.nothing ?_⟩
    unfold finds
    split
    · rw [Bool.of_not_eq_true hstopped]
      rfl
    · rfl

/-- From the moment the volume is protected until a packet unprotects it with the same key, the
handler sends no request that changes something but those that empty buffers and the CREATE of
`act_FINDUPDATE`; and it sends no CREATE if and only if each `ACTION_FINDUPDATE` finds its file. -/
theorem protected_run (hv : v.gIsWriteProtected = true) {ts : List VolumeTurn}
    (hkey : ∀ t ∈ ts, t.unlocks v.gLockKey = false)
    (hd : ts.foldlM (turn w.logged addPart) v = some v') :
    v'.gIsWriteProtected = true ∧ v'.gLockKey = v.gLockKey ∧
      Sent (GuardedM (turn w.logged addPart) (fun v t => v.finds w.logged addPart t = true) v ts)
        v.sent v'.sent := by
  induction ts generalizing v with
  | nil =>
      obtain rfl := Option.some.inj hd
      exact ⟨hv, rfl, Sent.nothing trivial⟩
  | cons t ts ih =>
      rw [List.foldlM_cons] at hd
      obtain ⟨v₁, hturn, hrest⟩ := Option.bind_eq_some_iff.mp hd
      obtain ⟨hv₁, hkey₁, hsent₁⟩ := protected_turn hv (hkey t List.mem_cons_self) hturn
      have hkeys : ∀ t' ∈ ts, t'.unlocks v₁.gLockKey = false := by
        rw [hkey₁]
        exact fun t' ht' => hkey t' (List.mem_cons_of_mem t ht')
      obtain ⟨hv', hkey', hsent⟩ := ih hv₁ hkeys hrest
      refine ⟨hv', hkey'.trans hkey₁, (hsent₁.trans hsent).congr (and_congr_right fun _ => ?_)⟩
      rw [hturn]
      simp

/-- The volume is protected when a file "a" is opened, deleted and opened for changes; then "b"
is. -/
theorem protected_run_store : ∃ v', List.foldlM (turn Store.requests.logged dosAddPart)
      ⟨⟨(Store.mounted ⟨[⟨0, [97], 1, NFREG⟩], by decide⟩ some).logged, [], 0⟩, true, 7⟩
      [.turn (.event (.packet (.findInput none [97]))), .turn (.event (.packet (.finish 1))),
        .turn (.event (.onName (.deleteObject none [97]) rfl)), .writeProtect (-1) 5,
          .writeProtect 0 5,
        .turn (.event (.packet (.findUpdate none [97]))), .turn .timer,
        .turn (.event (.packet (.findUpdate none [98])))] = some v' ∧
    v'.gIsWriteProtected = true := by
  refine ⟨Option.get _ (by decide +kernel), (Option.some_get _).symm, ?_⟩
  exact (protected_run rfl (by decide) (Option.some_get _).symm).1

/-- A file is created on a protected volume. -/
example : (List.foldlM (turn Store.requests.logged dosAddPart)
      ⟨⟨(Store.mounted ⟨[], List.nodup_nil⟩ some).logged, [], 0⟩, true, 7⟩
      [.turn (.event (.packet (.findUpdate none [98])))]).map sent =
    some [.create [0] [98] 0 0 511 4294967295] := by decide +kernel

end Volume

end Protected

end Anfs.Lock
