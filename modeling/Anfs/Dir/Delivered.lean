import Anfs.Dir.Endings
import Anfs.Dir.Scan

/-!
# The failures of scans over runs of packets

Whether all entries of a scan have been delivered depends on the packets before. Each entry that a
server has sent for a handle is recorded with what has become of it, and after every run the entries
that are neither delivered nor held any more are those that `LookupAttr` has failed for.
-/
namespace Anfs.Dir
open Anfs.Lib Anfs.Xdr Anfs.Nfs
open Anfs.File (DOSTRUE DOSFALSE)

/-- A packet of a scan. -/
inductive Packet
  | next (fl : LockArg) (fib : FIB) (ans : NextAnswers)
  | all (fl : LockArg) (p : ExAllPacket) (ans : AllAnswers) (mem : Nat → UInt8)

/-- The handler after the packet; `none` when it does not return. -/
def Packet.act (g : Global) : Packet → Option Global
  | .next fl fib ans => (actEXAMINENEXT g fl fib ans).map fun r => r.1
  | .all fl p ans mem => (actEXAMINEALL g fl p ans mem).map fun r => r.2.1

def Packet.course (g : Global) : Packet → Option Course
  | .next fl fib ans => nextCourse g fl fib ans
  | .all fl p ans _ => allCourse g fl p ans

/-- The address of the handle that the packet goes on with. -/
def Packet.handle (g : Global) : Packet → Nat
  | .next fl fib _ => nextHandle g fl fib
  | .all _ p _ _ => allHandle g p

/-- The reason the packet fails for, if it fails. -/
def Packet.ending (g : Global) (c : Packet) : Option Ending := (c.course g).bind Course.ending

/-- The entries that the packet takes from its handle. -/
def Packet.taken (g : Global) (c : Packet) : List Entry := (c.course g).elim [] Course.taken

/-- The reasons that the packet tells rightly. -/
def Packet.Tells (complete : Prop) : Packet → Ending → Prop
  | .next .. => NextTells complete
  | .all .. => AllTells complete

/-- The client gets what the packet has taken; an `EXAMINE_NEXT` that fails hands out nothing. -/
def Packet.delivers (g' : Global) : Packet → Bool
  | .next .. => g'.gRes1 == DOSTRUE
  | .all .. => true

/-- The handler and the entries of its scans, beside the addresses of their handles: those received
in replies, those delivered (or kept back by pattern or hook), and those for which `LookupAttr` has
failed. -/
structure Scans where
  g : Global
  received : List (Nat × Entry)
  delivered : List (Nat × Entry)
  missed : List (Nat × Entry)

/-- The entries of the replies to the calls between two states. -/
def newEntries (g g' : Global) : List Entry :=
  (g'.srv.replies.take (g'.srv.replies.length - g.srv.replies.length)).flatten

/-- The scan of the handle `addr` has received `new`, delivered `got` and missed `lost`. -/
def Scans.note (s : Scans) (g' : Global) (addr : Nat) (new got lost : List Entry) : Scans where
  g := g'
  received := s.received ++ new.map (Prod.mk addr)
  delivered := s.delivered ++ got.map (Prod.mk addr)
  missed := s.missed ++ lost.map (Prod.mk addr)

def Scans.call (s : Scans) (c : Packet) : Option Scans :=
  (c.act s.g).map fun g' => s.note g' (c.handle s.g) (newEntries s.g g')
    (if c.delivers g' then c.taken s.g else []) (if c.delivers g' then [] else c.taken s.g)

/-- A run starts with the entries that the handles hold. -/
def Scans.start (g : Global) : Scans where
  g := g
  received := g.gDH.flatMap fun edh => edh.edhNFSEntries.map (Prod.mk edh.edhAddr)
  delivered := []
  missed := []

/-- All entries received for the handle that scans return have been delivered. -/
def Scans.Complete (s : Scans) (addr : Nat) : Prop :=
  ∀ e, (addr, e) ∈ s.received →
    leftOut s.g.gMaxFileNameLen e = true ∨ (addr, e) ∈ s.delivered

/-- The entries for which `LookupAttr` has failed have been delivered all the same. -/
def Scans.NothingLost (s : Scans) (addr : Nat) : Prop :=
  ∀ e, (addr, e) ∈ s.missed → leftOut s.g.gMaxFileNameLen e = true ∨ (addr, e) ∈ s.delivered

/-- The handles have different addresses, all older than that of the next. -/
structure Addressed (g : Global) : Prop where
  nodup : (g.gDH.map EDH.edhAddr).Nodup
  fresh : ∀ edh ∈ g.gDH, edh.edhAddr < g.newEDH

/-- What has become of the entries in every state of a run. -/
structure Scans.Inv (s : Scans) : Prop where
  addressed : Addressed s.g
  known : ∀ x ∈ s.received, x.1 < s.g.newEDH
  missed : ∀ x ∈ s.missed, x ∈ s.received
  held : ∀ edh ∈ s.g.gDH, ∀ e ∈ edh.edhNFSEntries, (edh.edhAddr, e) ∈ s.received
  accounted : ∀ edh ∈ s.g.gDH, ∀ e, (edh.edhAddr, e) ∈ s.received →
    leftOut s.g.gMaxFileNameLen e = true ∨ (edh.edhAddr, e) ∈ s.delivered ∨
      (edh.edhAddr, e) ∈ s.missed ∨ e ∈ edh.edhNFSEntries

section Step
variable {s : Scans} {g g' : Global} {edh edh' : EDH} {d₁ d₂ : List EDH}
  {new got lost : List Entry} {addr addr' : Nat} {e : Entry}

theorem mem_note (l : List (Nat × Entry)) (es : List Entry) :
    (addr', e) ∈ l ++ es.map (Prod.mk addr) ↔ (addr', e) ∈ l ∨ addr' = addr ∧ e ∈ es := by
  rw [List.mem_append, List.mem_map]
  refine or_congr_right ⟨?_, ?_⟩
  · rintro ⟨x, hx, heq⟩
    cases heq
    exact ⟨rfl, hx⟩
  · rintro ⟨rfl, he⟩
    exact ⟨e, he, rfl⟩

theorem newEntries_eq {replies : List (List Entry)}
    (h : g'.srv.replies = replies ++ g.srv.replies) : newEntries g g' = replies.flatten := by
  unfold newEntries
  rw [h, List.length_append, Nat.add_sub_cancel, List.take_left]

/-- The last packet of a scan leaves no entry in the handle. -/
def Scans.Settled (s : Scans) (addr : Nat) : Prop :=
  ∀ e, (addr, e) ∈ s.received →
    leftOut s.g.gMaxFileNameLen e = true ∨ (addr, e) ∈ s.delivered ∨ (addr, e) ∈ s.missed

/-- When no entry is held, it is the missed ones that the scan may lack. -/
theorem Scans.Settled.complete_iff (h : s.Settled addr) (hmissed : ∀ x ∈ s.missed, x ∈ s.received) :
    s.Complete addr ↔ s.NothingLost addr := by
  constructor
  · exact fun hall e he => hall e (hmissed _ he)
  · intro hnone e he
    rcases h e he with hout | hgot | hlost
    · exact .inl hout
    · exact .inr hgot
    · exact hnone e hlost

/-- A handle of another address is as it was. -/
theorem Scans.Inv.other (h : s.Inv) (hmem : edh ∈ s.g.gDH) (hne : edh.edhAddr ≠ addr)
    (hmax : g'.gMaxFileNameLen = s.g.gMaxFileNameLen) (new got lost : List Entry) :
    (∀ e ∈ edh.edhNFSEntries, (edh.edhAddr, e) ∈ (s.note g' addr new got lost).received) ∧
    ∀ e, (edh.edhAddr, e) ∈ (s.note g' addr new got lost).received →
      leftOut g'.gMaxFileNameLen e = true ∨
        (edh.edhAddr, e) ∈ (s.note g' addr new got lost).delivered ∨
        (edh.edhAddr, e) ∈ (s.note g' addr new got lost).missed ∨ e ∈ edh.edhNFSEntries := by
  refine ⟨fun e he => List.mem_append_left _ (h.held edh hmem e he), fun e he => ?_⟩
  rcases (mem_note _ _).mp he with he | ⟨heq, -⟩
  · rw [hmax]
    rcases h.accounted edh hmem e he with hout | hgot | hlost | hheld
    · exact .inl hout
    · exact .inr (.inl (List.mem_append_left _ hgot))
    · exact .inr (.inr (.inl (List.mem_append_left _ hlost)))
    · exact .inr (.inr (.inr hheld))
  · exact absurd heq hne

/-- The entries that the handle has held, or that have come in, have gone out or are held on. -/
theorem Scans.Inv.note_account (h : s.Inv) (hmem : edh ∈ s.g.gDH) {q : Entry → Prop}
    (hsplit : ∀ e ∈ edh.edhNFSEntries ++ new, leftOut s.g.gMaxFileNameLen e = true ∨
      e ∈ got ++ lost ∨ q e)
    (he : (edh.edhAddr, e) ∈ (s.note g' edh.edhAddr new got lost).received) :
    leftOut s.g.gMaxFileNameLen e = true ∨
      (edh.edhAddr, e) ∈ (s.note g' edh.edhAddr new got lost).delivered ∨
      (edh.edhAddr, e) ∈ (s.note g' edh.edhAddr new got lost).missed ∨ q e := by
  have hgone : ∀ x ∈ edh.edhNFSEntries ++ new, leftOut s.g.gMaxFileNameLen x = true ∨
      (edh.edhAddr, x) ∈ (s.note g' edh.edhAddr new got lost).delivered ∨
      (edh.edhAddr, x) ∈ (s.note g' edh.edhAddr new got lost).missed ∨ q x := by
    intro x hx
    rcases hsplit x hx with hout | htaken | hq
    · exact .inl hout
    · rcases List.mem_append.mp htaken with hgot | hlost
      · exact .inr (.inl ((mem_note _ _).mpr (.inr ⟨rfl, hgot⟩)))
      · exact .inr (.inr (.inl ((mem_note _ _).mpr (.inr ⟨rfl, hlost⟩))))
    · exact .inr (.inr (.inr hq))
  rcases (mem_note _ _).mp he with he | ⟨-, he⟩
  · rcases h.accounted edh hmem e he with hout | hgot | hlost | hheld
    · exact .inl hout
    · exact .inr (.inl (List.mem_append_left _ hgot))
    · exact .inr (.inr (.inl (List.mem_append_left _ hlost)))
    · exact hgone e (List.mem_append_left _ hheld)
  · exact hgone e (List.mem_append_right _ he)

/-- The other handles have other addresses. -/
theorem Addressed.others (h : Addressed g) (hg : g.gDH = d₁ ++ edh :: d₂) :
    ∀ x ∈ d₁ ++ d₂, x ∈ g.gDH ∧ x.edhAddr ≠ edh.edhAddr := by
  have hnodup := h.nodup
  rw [hg, List.map_append, List.map_cons, List.nodup_append, List.nodup_cons] at hnodup
  obtain ⟨-, ⟨hpost, -⟩, hpre⟩ := hnodup
  intro x hx
  rw [hg]
  rcases List.mem_append.mp hx with hx | hx
  · exact ⟨List.mem_append_left _ hx, hpre _ (List.mem_map_of_mem hx) _ List.mem_cons_self⟩
  · refine ⟨List.mem_append_right _ (List.mem_cons_of_mem _ hx), fun heq => ?_⟩
    exact hpost (heq ▸ List.mem_map_of_mem hx)

theorem Addressed.removed (h : Addressed g) (hg : g.gDH = d₁ ++ edh :: d₂)
    (hgone : g'.gDH = d₁ ++ d₂) (hfresh : g'.newEDH = g.newEDH) : Addressed g' := by
  refine ⟨?_, fun x hx => ?_⟩
  · have hnodup := h.nodup
    rw [hg] at hnodup
    rw [hgone]
    exact hnodup.sublist (((List.sublist_cons_self edh d₂).append_left d₁).map _)
  · rw [hfresh]
    exact h.fresh x (h.others hg x (hgone ▸ hx)).1

theorem Addressed.stored (h : Addressed g) (hg : g.gDH = d₁ ++ edh :: d₂)
    (hstored : g'.gDH = d₁ ++ edh' :: d₂) (haddr : edh'.edhAddr = edh.edhAddr)
    (hfresh : g'.newEDH = g.newEDH) : Addressed g' := by
  have hsame : g'.gDH.map EDH.edhAddr = g.gDH.map EDH.edhAddr := by
    simp only [hg, hstored, List.map_append, List.map_cons, haddr]
  refine ⟨hsame ▸ h.nodup, fun x hx => ?_⟩
  obtain ⟨y, hy, hxy⟩ := List.mem_map.mp (hsame ▸ List.mem_map_of_mem (f := EDH.edhAddr) hx)
  rw [hfresh, ← hxy]
  exact h.fresh y hy

/-- What the handle holds or the packet brings has been received. -/
theorem Scans.Inv.received (h : s.Inv) (hmem : edh ∈ s.g.gDH) :
    ∀ x ∈ edh.edhNFSEntries ++ new,
      (edh.edhAddr, x) ∈ (s.note g' edh.edhAddr new got lost).received := by
  intro x hx
  refine (mem_note _ _).mpr ((List.mem_append.mp hx).imp ?_ fun hx => ⟨rfl, hx⟩)
  exact h.held edh hmem x

theorem Scans.Inv.note_known (h : s.Inv) (hmem : edh ∈ s.g.gDH)
    (hfresh : g'.newEDH = s.g.newEDH) :
    ∀ x ∈ (s.note g' edh.edhAddr new got lost).received, x.1 < g'.newEDH := by
  rintro ⟨a, x⟩ hx
  rw [hfresh]
  rcases (mem_note _ _).mp hx with hx | ⟨rfl, -⟩
  · exact h.known _ hx
  · exact h.addressed.fresh edh hmem

theorem Scans.Inv.note_missed (h : s.Inv) (hmem : edh ∈ s.g.gDH)
    (htaken : ∀ e ∈ got ++ lost, e ∈ edh.edhNFSEntries ++ new) :
    ∀ x ∈ (s.note g' edh.edhAddr new got lost).missed,
      x ∈ (s.note g' edh.edhAddr new got lost).received := by
  rintro ⟨a, x⟩ hx
  rcases (mem_note s.missed lost).mp hx with hold | ⟨rfl, hnew⟩
  · exact List.mem_append_left _ (h.missed _ hold)
  · exact h.received hmem x (htaken x (List.mem_append_right _ hnew))

/-- A packet that goes on with a handle keeps the account. -/
theorem Scans.Inv.passes {ending : Option Ending} (h : s.Inv) (hmem : edh ∈ s.g.gDH)
    (hpasses : Passes s.g edh (got ++ lost) ending g') :
    (s.note g' edh.edhAddr (newEntries s.g g') got lost).Inv ∧
      (ending = some .exhausted →
        (s.note g' edh.edhAddr (newEntries s.g g') got lost).Settled edh.edhAddr) := by
  obtain ⟨hmax, hfresh, replies, hreplies, htaken, hend⟩ := hpasses
  rw [newEntries_eq hreplies]
  obtain ⟨d₁, d₂, hg⟩ := List.append_of_mem hmem
  have hothers := h.addressed.others hg
  rcases hend with ⟨hgone, hall⟩ | ⟨edh', haddr, hstored, hother, hheld, hrest⟩
  · rw [dirRemove_split hg h.addressed.nodup rfl] at hgone
    have hold : ∀ x ∈ g'.gDH, x ∈ s.g.gDH ∧ x.edhAddr ≠ edh.edhAddr :=
      fun x hx => hothers x (hgone ▸ hx)
    refine ⟨⟨h.addressed.removed hg hgone hfresh, h.note_known hmem hfresh,
      h.note_missed hmem htaken, fun x hx => ?_, fun x hx => ?_⟩, fun hexhausted e he => ?_⟩
    · exact (h.other (hold x hx).1 (hold x hx).2 hmax _ _ _).1
    · exact (h.other (hold x hx).1 (hold x hx).2 hmax _ _ _).2
    · have hsettled := h.note_account (q := fun _ => False) hmem
        (fun x hx => (hall hexhausted x hx).imp_right .inl) he
      rw [← hmax] at hsettled
      exact hsettled.imp_right fun hgot => hgot.imp_right fun hlost => hlost.resolve_right id
  · rw [dirStore_split hg h.addressed.nodup haddr] at hstored
    have hnow : ∀ x ∈ g'.gDH, x = edh' ∨ x ∈ s.g.gDH ∧ x.edhAddr ≠ edh.edhAddr := by
      intro x hx
      rw [hstored] at hx
      rcases List.mem_append.mp hx with hx | hx
      · exact .inr (hothers x (List.mem_append_left _ hx))
      · exact (List.mem_cons.mp hx).imp_right fun hx => hothers x (List.mem_append_right _ hx)
    refine ⟨⟨h.addressed.stored hg hstored haddr hfresh, h.note_known hmem hfresh,
      h.note_missed hmem htaken, fun x hx => ?_, fun x hx => ?_⟩,
      fun hexhausted => absurd hexhausted hother⟩
    · rcases hnow x hx with rfl | ⟨hx, hne⟩
      · rw [haddr]
        exact fun e he => h.received hmem e (hheld e he)
      · exact (h.other hx hne hmax _ _ _).1
    · rcases hnow x hx with rfl | ⟨hx, hne⟩
      · rw [haddr]
        intro e he
        have haccount := h.note_account hmem hrest he
        rwa [← hmax] at haccount
      · exact (h.other hx hne hmax _ _ _).2

/-- The new handle has neither received nor held anything. -/
theorem Scans.Inv.begin (h : s.Inv) (hfresh : edh.edhAddr = s.g.newEDH)
    (hempty : edh.edhNFSEntries = []) : Scans.Inv { s with g := dirInsert s.g edh } := by
  have hother : ∀ x ∈ s.g.gDH, x.edhAddr ≠ edh.edhAddr := by
    intro x hx heq
    exact absurd (hfresh ▸ heq ▸ h.addressed.fresh x hx) (Nat.lt_irrefl _)
  refine ⟨⟨?_, fun x hx => ?_⟩, fun x hx => Nat.lt_succ_of_lt (h.known x hx), h.missed,
    fun x hx => ?_, fun x hx => ?_⟩
  · refine List.nodup_cons.mpr ⟨fun hin => ?_, h.addressed.nodup⟩
    obtain ⟨x, hx, heq⟩ := List.mem_map.mp hin
    exact hother x hx heq
  · rcases List.mem_cons.mp hx with rfl | hx
    · exact hfresh ▸ Nat.lt_succ_self _
    · exact Nat.lt_succ_of_lt (h.addressed.fresh x hx)
  · rcases List.mem_cons.mp hx with rfl | hx
    · rw [hempty]
      exact List.forall_mem_nil _
    · exact h.held x hx
  · rcases List.mem_cons.mp hx with rfl | hx
    · intro e he
      exact absurd (hfresh ▸ h.known _ he) (Nat.lt_irrefl _)
    · exact h.accounted x hx

/-- A packet without a handle changes nothing. -/
theorem Scans.Inv.unchanged (h : s.Inv) (res1 res2 : Int) :
    (s.note (s.g.setRes res1 res2) addr (newEntries s.g (s.g.setRes res1 res2)) [] []).Inv := by
  have hnone : newEntries s.g (s.g.setRes res1 res2) = [] := by
    rw [@newEntries_eq s.g (s.g.setRes res1 res2) [] rfl]
    rfl
  rw [hnone]
  unfold Scans.note
  simp only [List.map_nil, List.append_nil]
  exact ⟨⟨h.addressed.nodup, h.addressed.fresh⟩, h.known, h.missed, h.held, h.accounted⟩

theorem Scans.Inv.follows {ending : Option Ending} {taken : List Entry} (h : s.Inv)
    (hfollows : Follows s.g addr taken ending g') (delivers : Bool) {s' : Scans}
    (hs' : s' = s.note g' addr (newEntries s.g g') (if delivers then taken else [])
      (if delivers then [] else taken)) :
    s'.Inv ∧ (ending = some .exhausted → s'.Settled addr) := by
  have htaken : taken = (if delivers then taken else []) ++ (if delivers then [] else taken) := by
    cases delivers <;> simp
  rw [hs']
  cases hfollows with
  | found mem place passes =>
      subst place
      rw [htaken] at passes
      exact h.passes mem passes
  | @begun edh fresh place empty passes =>
      subst place
      rw [htaken] at passes
      have hbegun := (h.begin fresh empty).passes List.mem_cons_self passes
      rwa [fresh] at hbegun
  | none nothing goesOn same =>
      obtain ⟨res1, res2, rfl⟩ := same
      subst nothing
      simp only [ite_self]
      exact ⟨h.unchanged res1 res2, fun hexhausted => absurd hexhausted goesOn⟩

/-- A packet and the codes of its result. -/
theorem Packet.ends {g : Global} {c : Packet} (h : c.act g = some g') :
    ∃ code : Ending → Int, Ends code (c.ending g) g' ∧
      ∀ (complete : Prop) (e : Ending), e.Real →
        (Told complete e (code e) ↔ c.Tells complete e) := by
  cases c with
  | next fl fib ans =>
      obtain ⟨r, hact, rfl⟩ := Option.map_eq_some_iff.mp h
      exact ⟨nextCode, actEXAMINENEXT_ends hact, fun _ _ => told_nextCode⟩
  | all fl p ans mem =>
      obtain ⟨⟨ending, g₁, eac, mem'⟩, hact, rfl⟩ := Option.map_eq_some_iff.mp h
      obtain ⟨taken, hcourse, -⟩ := actEXAMINEALL_course hact
      have hending : Packet.ending g (.all fl p ans mem) = ending := by
        show (allCourse g fl p ans).bind Course.ending = ending
        rw [hcourse]
        rfl
      rw [hending]
      exact ⟨allCode, actEXAMINEALL_ends hact, fun _ _ => told_allCode⟩

theorem Packet.follows {g : Global} {c : Packet} (h : c.act g = some g') :
    Follows g (c.handle g) (c.taken g) (c.ending g) g' := by
  cases c with
  | next fl fib ans =>
      obtain ⟨r, hact, rfl⟩ := Option.map_eq_some_iff.mp h
      obtain ⟨k, hcourse, hfollows⟩ := actEXAMINENEXT_course hact
      show Follows g (nextHandle g fl fib) ((nextCourse g fl fib ans).elim [] Course.taken)
        ((nextCourse g fl fib ans).bind Course.ending) _
      rw [hcourse]
      exact hfollows
  | all fl p ans mem =>
      obtain ⟨⟨ending, g₁, eac, mem'⟩, hact, rfl⟩ := Option.map_eq_some_iff.mp h
      obtain ⟨taken, hcourse, hfollows⟩ := actEXAMINEALL_course hact
      show Follows g (allHandle g p) ((allCourse g fl p ans).elim [] Course.taken)
        ((allCourse g fl p ans).bind Course.ending) _
      rw [hcourse]
      exact hfollows

/-- A packet keeps the account; at the end of its scan the handle holds nothing any more. -/
theorem Scans.Inv.call {s' : Scans} {c : Packet} (h : s.Inv) (hcall : s.call c = some s') :
    s'.Inv ∧ (c.ending s.g = some .exhausted → s'.Settled (c.handle s.g)) := by
  obtain ⟨g', hact, hs'⟩ := Option.map_eq_some_iff.mp hcall
  exact h.follows (Packet.follows hact) (c.delivers g') hs'.symm

theorem Scans.Inv.start {g : Global} (hg : Addressed g) : (Scans.start g).Inv := by
  have hmem : ∀ edh ∈ g.gDH, ∀ e ∈ edh.edhNFSEntries,
      (edh.edhAddr, e) ∈ (Scans.start g).received := fun edh hedh e he =>
    List.mem_flatMap.mpr ⟨edh, hedh, List.mem_map_of_mem he⟩
  have hcases : ∀ {a : Nat} {e : Entry}, (a, e) ∈ (Scans.start g).received →
      ∃ edh ∈ g.gDH, edh.edhAddr = a ∧ e ∈ edh.edhNFSEntries := by
    intro a e he
    obtain ⟨edh, hedh, he⟩ := List.mem_flatMap.mp he
    obtain ⟨x, hx, heq⟩ := List.mem_map.mp he
    cases heq
    exact ⟨edh, hedh, rfl, hx⟩
  refine ⟨hg, ?_, List.forall_mem_nil _, hmem, fun edh hedh e he => ?_⟩
  · rintro ⟨a, e⟩ he
    obtain ⟨edh, hedh, rfl, -⟩ := hcases he
    exact hg.fresh edh hedh
  · obtain ⟨edh', hedh', haddr, he⟩ := hcases he
    have hsame : edh' = edh := List.inj_on_of_nodup_map hg.nodup hedh' hedh haddr
    exact .inr (.inr (.inr (hsame ▸ he)))

/-- Only the end of the directory depends on what has been delivered. -/
theorem Packet.tells_congr {c : Packet} {e : Ending} {p q : Prop} (h : e = .exhausted → (p ↔ q)) :
    c.Tells p e ↔ c.Tells q e := by
  cases c <;> cases e <;> first | exact h rfl | exact Iff.rfl

theorem Scans.Inv.run {cs : List Packet} {s' : Scans} (h : s.Inv)
    (hrun : cs.foldlM Scans.call s = some s') : s'.Inv := by
  induction cs generalizing s with
  | nil =>
      cases hrun
      exact h
  | cons c cs ih =>
      rw [List.foldlM_cons] at hrun
      obtain ⟨s₁, hcall, hrest⟩ := Option.bind_eq_some_iff.mp hrun
      exact ih (h.call hcall).1 hrest

/-- Every packet of every run keeps the convention if and only if it does not fail for a reason
that its code does not tell; the end of the directory is told rightly if nothing has been lost. -/
theorem failsTold_iff {g : Global} (hg : Addressed g) {cs : List Packet} {s' : Scans} {c : Packet}
    (hrun : cs.foldlM Scans.call (.start g) = some s) (hcall : s.call c = some s') :
    FailsTold (s'.Complete (c.handle s.g)) (c.ending s.g) s'.g ↔
      ∀ e, c.ending s.g = some e → c.Tells (s'.NothingLost (c.handle s.g)) e := by
  obtain ⟨hinv, hsettled⟩ := ((Scans.Inv.start hg).run hrun).call hcall
  obtain ⟨g', hact, rfl⟩ := Option.map_eq_some_iff.mp hcall
  obtain ⟨code, hends, htold⟩ := Packet.ends hact
  refine (hends.told_iff (htold _)).trans
    (forall₂_congr fun e he => Packet.tells_congr fun hend => ?_)
  exact (hsettled (hend ▸ he)).complete_iff hinv.missed

end Step

/-- A server that answers every READDIR so, and no scan. -/
def exDirs (cut : Cut) : Global where
  srv := ⟨fun _ => [⟨8, [97], [0, 0, 0, 1]⟩], fun _ => cut, 0, []⟩
  gDH := []
  newEDH := 1
  gMaxFileNameLen := 106
  dlName := [118]
  gMntFh := [1]
  gMntAttr := default
  gRes1 := 0
  gRes2 := 0

theorem exDirs_addressed (cut : Cut) : Addressed (exDirs cut) :=
  ⟨List.nodup_nil, List.forall_mem_nil _⟩

/-- The lock of the directory. -/
def exDir : LockArg := .lock (some ⟨7, [1], [100]⟩)

/-- The block that `EXAMINE_OBJECT` has filled for the directory, or a packet for an entry. -/
def exFib (key : UInt32) (name : List UInt8) : FIB := ⟨key, 0, name, 0, 0, 0, ⟨0, 0, 0⟩, [], 0, 0⟩

/-- The first packet of a scan, with what `LookupAttr` finds. -/
def exFirst (attr : Except Int Fattr) : Packet := .next exDir (exFib 7 []) ⟨true, true, attr⟩

/-- The packet behind the entry "a". -/
def exSecond : Packet := .next exDir (exFib 0 [1, 97]) ⟨true, true, .ok default⟩

/-- Names only, into 100 bytes. -/
def exPacket : Packet := .all exDir ⟨4096, 100, ED_NAME, ⟨0, none, none, none⟩⟩
  ⟨true, fun _ => true, fun _ => .ok default⟩ fun _ => 0

/-- The server refuses the READDIR, and both actions report its error; or it sends "a", which is
delivered before the end of the directory is reported. -/
theorem failsTold_iff_scan :
    (∃ s', (Scans.start (exDirs (.failed 202))).call (exFirst (.ok default)) = some s' ∧
      FailsTold (s'.Complete 1) ((exFirst (.ok default)).ending (exDirs (.failed 202))) s'.g) ∧
    (∃ s', (Scans.start (exDirs (.failed 202))).call exPacket = some s' ∧
      FailsTold (s'.Complete 1) (exPacket.ending (exDirs (.failed 202))) s'.g) ∧
    ∃ s s', [exFirst (.ok default)].foldlM Scans.call (.start (exDirs (.reply 1 false))) = some s ∧
      s.call exSecond = some s' ∧ s'.g.gRes2 = errorNoMoreEntries ∧
      FailsTold (s'.Complete 1) (exSecond.ending s.g) s'.g := by
  refine ⟨⟨_, rfl, ?_⟩, ⟨_, rfl, ?_⟩, ⟨_, _, rfl, rfl, rfl, ?_⟩⟩
  · refine (@failsTold_iff _ _ (exDirs_addressed _) [] _ _ rfl rfl).mpr fun e he => ?_
    have hending : (exFirst (.ok default)).ending (exDirs (.failed 202)) = some (.readFailed 202) :=
      rfl
    cases hending.symm.trans he
    exact ⟨by decide, by decide, by decide⟩
  · refine (@failsTold_iff _ _ (exDirs_addressed _) [] _ _ rfl rfl).mpr fun e he => ?_
    have hending : exPacket.ending (exDirs (.failed 202)) = some (.readFailed 202) := rfl
    cases hending.symm.trans he
    exact ⟨by decide, by decide, by decide⟩
  · refine (@failsTold_iff _ _ (exDirs_addressed (.reply 1 false)) [exFirst (.ok default)] _ _ rfl
      rfl).mpr fun e he => ?_
    have hending : some Ending.exhausted = some e := he
    cases hending
    exact fun x hx => nomatch (show _ ∈ ([] : List (Nat × Entry)) from hx)

/-- A READDIR that times out is taken for the end of the directory, an invalid lock for no error at
all, and a directory ends whose only entry has been lost to a look-up that failed. -/
theorem not_failsTold_timeout :
    (∃ s', (Scans.start (exDirs (.failed 1005))).call (exFirst (.ok default)) = some s' ∧
      s'.g.gRes2 = errorNoMoreEntries ∧
      ¬ FailsTold (s'.Complete 1) ((exFirst (.ok default)).ending (exDirs (.failed 1005))) s'.g) ∧
    (∃ s', (Scans.start (exDirs (.failed 1005))).call
        (.next (.lock none) (exFib 7 []) ⟨true, true, .ok default⟩) = some s' ∧
      s'.g.gRes2 = 0 ∧ ¬ FailsTold (s'.Complete 1) (some .invalidLock) s'.g) ∧
    ∃ s s', [exFirst (.error 5)].foldlM Scans.call (.start (exDirs (.reply 1 false))) = some s ∧
      s.call (exFirst (.ok default)) = some s' ∧ s'.g.gRes2 = errorNoMoreEntries ∧
      s'.delivered = [] ∧
      ¬ FailsTold (s'.Complete 1) ((exFirst (.ok default)).ending s.g) s'.g := by
  refine ⟨⟨_, rfl, rfl, fun h => ?_⟩, ⟨_, rfl, rfl, fun h => ?_⟩,
    ⟨_, _, rfl, rfl, rfl, rfl, fun h => ?_⟩⟩
  · obtain ⟨e, he, htold⟩ := h rfl
    have hending : (exFirst (.ok default)).ending (exDirs (.failed 1005)) =
        some (.readFailed 1005) := rfl
    cases hending.symm.trans he
    exact absurd (htold.read 1005 rfl) (by decide)
  · obtain ⟨e, he, htold⟩ := h rfl
    exact htold.nonzero rfl
  · obtain ⟨e, he, htold⟩ := h rfl
    have hending : some Ending.exhausted = some e := he
    cases hending
    rcases (told_exhausted.mp htold) ⟨8, [97], [0, 0, 0, 1]⟩ List.mem_cons_self with hout | hgot
    · exact absurd hout (by decide)
    · exact nomatch (show _ ∈ ([] : List (Nat × Entry)) from hgot)

end Anfs.Dir
