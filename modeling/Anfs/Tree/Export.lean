import Anfs.Dir.Lookup
import Anfs.Lib.Preferred
import Anfs.Tree.Reads
import Anfs.Tree.Tidy

/-!
# The exported tree

What the server has: the names in each directory with the ids of their objects, in the order of
its listing. A name is looked up as it is spelled, and then in any case. A request about one name
leaves the other names as they are.
-/
namespace Anfs.Tree
open Anfs.Dir Anfs.Lib Anfs.Xdr

/-- The names in the directories, by the ids of these. -/
abbrev DirNames := UInt32 → List (List UInt8 × UInt32)

/-- An entry with the name `entry` can be what is found for `name`. -/
def Means (name entry : List UInt8) : Prop := Matches name ⟨0, entry, []⟩

instance (name entry : List UInt8) : Decidable (Means name entry) :=
  inferInstanceAs (Decidable (Matches _ _))

theorem means_self (name : List UInt8) : Means name name := by
  unfold Means Matches
  split
  · rfl
  · rfl

/-- The id of the object that is found for a name. -/
def resolve (l : List (List UInt8 × UInt32)) (name : List UInt8) : Option UInt32 :=
  (preferred (fun e => e.1 = name) (fun e => Means name e.1) l).map Prod.snd

/-- `nfs_Lookup` finds in a listing what is found for the name. -/
theorem resolve_entries (l : List Entry) (name : List UInt8) :
    resolve (l.map fun e => (e.name, e.fileid)) name = (named l name).map Entry.fileid := by
  unfold resolve
  rw [preferred_map, Option.map_map]
  rfl

/-- The entry of the directory `d` is not one of those listed, each with its directory. -/
def untouched (at_ : List (UInt32 × List UInt8)) (d : UInt32) (e : List UInt8 × UInt32) : Bool :=
  at_.all fun a => ¬ (a.1 = d ∧ a.2 = e.1)

@[simp] theorem untouched_iff {at_ : List (UInt32 × List UInt8)} {d : UInt32}
    {e : List UInt8 × UInt32} :
    untouched at_ d e = true ↔ (d, e.1) ∉ at_ := by
  simp only [untouched, List.all_eq_true, decide_eq_true_eq]
  constructor
  · exact fun h hmem => h _ hmem ⟨rfl, rfl⟩
  · rintro h ⟨d, name⟩ ha ⟨rfl, rfl⟩
    exact h ha

/-- The names are the same but for those listed. -/
def Elsewhere (at_ : List (UInt32 × List UInt8)) (N N' : DirNames) : Prop :=
  ∀ d, (N d).filter (untouched at_ d) = (N' d).filter (untouched at_ d)

section Elsewhere
variable {at_ at_' : List (UInt32 × List UInt8)} {N N' N'' : DirNames} {d : UInt32}
  {name : List UInt8}

theorem Elsewhere.refl (at_ : List (UInt32 × List UInt8))
    (N : DirNames) : Elsewhere at_ N N := fun _ => rfl

theorem Elsewhere.trans (h : Elsewhere at_ N N') (h' : Elsewhere at_ N' N'') :
    Elsewhere at_ N N'' :=
  fun d => (h d).trans (h' d)

theorem Elsewhere.mono (h : Elsewhere at_ N N') (hsub : at_ ⊆ at_') : Elsewhere at_' N N' := by
  intro d
  have hfilter : ∀ l : List (List UInt8 × UInt32),
      (l.filter (untouched at_' d)).filter (untouched at_ d) = l.filter (untouched at_' d) := by
    intro l
    refine List.filter_eq_self.mpr fun e he => ?_
    exact untouched_iff.mpr fun hmem => untouched_iff.mp (List.mem_filter.mp he).2 (hsub hmem)
  rw [← hfilter (N d), ← hfilter (N' d), List.filter_comm, h d, List.filter_comm]

/-- Where no changed name can be found for a name, the same object is found. -/
theorem Elsewhere.resolve_eq (h : Elsewhere at_ N N')
    (hname : ∀ a ∈ at_, a.1 = d → ¬ Means name a.2) :
    resolve (N d) name = resolve (N' d) name := by
  unfold resolve
  rw [preferred_congr ?_ ?_ (h d)]
  · intro e he
    obtain rfl := of_decide_eq_true he
    exact decide_eq_true (means_self e.1)
  · intro e he
    exact untouched_iff.mpr fun hmem => hname _ hmem rfl (of_decide_eq_true he)

/-- An entry with another name stays. -/
theorem Elsewhere.mem (h : Elsewhere at_ N N') {b : List UInt8 × UInt32} (hb : b ∈ N d)
    (hat : (d, b.1) ∉ at_) :
    b ∈ N' d := by
  have hmem : b ∈ (N d).filter (untouched at_ d) := List.mem_filter.mpr ⟨hb, untouched_iff.mpr hat⟩
  rw [h d] at hmem
  exact List.mem_of_mem_filter hmem

end Elsewhere

/-- An entry that is spelled like the name is what is found. -/
theorem resolve_of_mem {l : List (List UInt8 × UInt32)} (hl : (l.map Prod.fst).Nodup)
    {b : List UInt8 × UInt32}
    (hb : b ∈ l) : resolve l b.1 = some b.2 := by
  unfold resolve
  rw [preferred_of_find? (find?_eq_of_mem hl hb)]
  rfl

/-- A server with a tree that only other requests change: an object has one id, none has the id for
"unset", and LOOKUP finds what is found for the name. -/
structure Exports {σ : Type} (idOf : List UInt8 → UInt32) (names : σ → DirNames)
    (w : World σ) : Prop
    extends Consistent idOf w where
  used : ∀ fh, idOf fh ≠ dceIdUnused
  asked : ∀ N, w.Keeps fun env => names env = N
  found : ∀ env dir name r, (w.lookup env dir name).1 = .ok r →
    resolve (names env (idOf dir)) name = some r.attributes.fileid

end Anfs.Tree
