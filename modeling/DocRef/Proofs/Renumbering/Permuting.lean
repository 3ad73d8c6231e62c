import DocRef.Proofs.Renumbering.Loading

/-!
The same types in another order. A listing is found in every permutation of it
(`exists_embeds_of_perm`): a type in front moves the numbers of all others up, two types in front
exchange their numbers and their members', and one renumbering may follow another.
-/

namespace DocRef

/-! ### Numbers -/

/-- Leaves the first `count` numbers and gives those behind them the numbers that `f` says. -/
def shiftBehind (count : Nat) (f : Nat → Nat) (i : Nat) : Nat :=
  if i < count then i else count + f (i - count)

/-- Exchanges the first `count` numbers with the `next` ones behind them. -/
def exchangeBlocks (count next i : Nat) : Nat :=
  if i < count then next + i else if i < count + next then i - count else i

theorem shiftBehind_of_lt {count i : Nat} (f : Nat → Nat) (h : i < count) :
    shiftBehind count f i = i :=
  if_pos h

theorem shiftBehind_add (count : Nat) (f : Nat → Nat) (i : Nat) :
    shiftBehind count f (count + i) = count + f i := by
  rw [shiftBehind, if_neg (by omega), Nat.add_sub_cancel_left]

theorem shiftBehind_injective (count : Nat) {f : Nat → Nat} (hf : Function.Injective f) :
    Function.Injective (shiftBehind count f) := by
  intro i j h
  simp only [shiftBehind] at h
  split at h <;> split at h
  · exact h
  · omega
  · omega
  · have hsub : i - count = j - count := hf (Nat.add_left_cancel h)
    omega

theorem exchangeBlocks_injective (count next : Nat) :
    Function.Injective (exchangeBlocks count next) := by
  intro i j h
  simp only [exchangeBlocks] at h
  split at h <;> split at h <;> (try split at h) <;> (try split at h) <;> omega

namespace Renumbering

/-- A renumbering by the numbers alone. -/
def ofIndex (onType onMember : Nat → Nat) (htype : Function.Injective onType)
    (hmember : Function.Injective onMember) : Renumbering where
  type id := ⟨onType id.index⟩
  member id := ⟨onMember id.index⟩
  type_injective _ _ h := congrArg TypeId.mk (htype (congrArg TypeId.index h))
  member_injective _ _ h := congrArg MemberId.mk (hmember (congrArg MemberId.index h))

/-- What a renumbering does behind a type with a given number of members. -/
def behind (ρ : Renumbering) (members : Nat) : Renumbering :=
  ofIndex (shiftBehind 1 fun i => (ρ.type ⟨i⟩).index)
    (shiftBehind members fun i => (ρ.member ⟨i⟩).index)
    (shiftBehind_injective 1 fun _ _ h => congrArg TypeId.index (ρ.type_injective
      (congrArg TypeId.mk h)))
    (shiftBehind_injective members fun _ _ h => congrArg MemberId.index (ρ.member_injective
      (congrArg MemberId.mk h)))

/-- Exchanges the first two types, given the numbers of their members. -/
def exchange (first second : Nat) : Renumbering :=
  ofIndex (exchangeBlocks 1 1) (exchangeBlocks first second) (exchangeBlocks_injective 1 1)
    (exchangeBlocks_injective first second)

/-- One renumbering after another. -/
def andThen (ρ σ : Renumbering) : Renumbering where
  type := σ.type ∘ ρ.type
  member := σ.member ∘ ρ.member
  type_injective := σ.type_injective.comp ρ.type_injective
  member_injective := σ.member_injective.comp ρ.member_injective

theorem type_behind_succ (ρ : Renumbering) (members place : Nat) :
    (ρ.behind members).type ⟨place + 1⟩ = ⟨(ρ.type ⟨place⟩).index + 1⟩ := by
  apply congrArg TypeId.mk
  rw [Nat.add_comm place, Nat.add_comm (ρ.type ⟨place⟩).index]
  exact shiftBehind_add 1 (fun i => (ρ.type ⟨i⟩).index) place

theorem member_behind_of_lt (ρ : Renumbering) {members offset : Nat} (h : offset < members) :
    (ρ.behind members).member ⟨offset⟩ = ⟨offset⟩ :=
  congrArg MemberId.mk (shiftBehind_of_lt _ h)

theorem member_behind_add (ρ : Renumbering) (members i : Nat) :
    (ρ.behind members).member ⟨members + i⟩ = ⟨members + (ρ.member ⟨i⟩).index⟩ :=
  congrArg MemberId.mk (shiftBehind_add members (fun i => (ρ.member ⟨i⟩).index) i)

theorem member_exchange_first {first second offset : Nat} (h : offset < first) :
    (exchange first second).member ⟨offset⟩ = ⟨second + offset⟩ :=
  congrArg MemberId.mk (if_pos h)

theorem member_exchange_second {first second offset : Nat} (h : offset < second) :
    (exchange first second).member ⟨first + offset⟩ = ⟨offset⟩ := by
  apply congrArg MemberId.mk
  show exchangeBlocks first second (first + offset) = offset
  rw [exchangeBlocks, if_neg (by omega), if_pos (by omega), Nat.add_sub_cancel_left]

theorem member_exchange_rest (first second i : Nat) :
    (exchange first second).member ⟨first + (second + i)⟩ = ⟨second + (first + i)⟩ := by
  apply congrArg MemberId.mk
  show exchangeBlocks first second (first + (second + i)) = second + (first + i)
  rw [exchangeBlocks, if_neg (by omega), if_neg (by omega), Nat.add_left_comm]

end Renumbering

/-! ### Listings -/

namespace Listing

variable {ρ σ : Renumbering} {listing other : Listing}

theorem Embeds.cons (type : ListedType) (h : listing.Embeds ρ other) :
    Embeds (ρ.behind type.members.length) (type :: listing) (type :: other) where
  type := by
    intro place found hfound
    cases place with
    | zero => exact hfound
    | succ place =>
      rw [Renumbering.type_behind_succ]
      exact h.type hfound
  member := by
    intro place offset found hfound hoffset
    cases place with
    | zero =>
      cases hfound
      show (ρ.behind _).member _ = ⟨firstMember (type :: other) 0 + offset⟩
      rw [firstMember, firstMember, Nat.zero_add]
      exact Renumbering.member_behind_of_lt ρ hoffset
    | succ place =>
      have hmember := congrArg MemberId.index (h.member hfound hoffset)
      rw [Renumbering.type_behind_succ, firstMember, firstMember, Nat.add_assoc, Nat.add_assoc,
        Renumbering.member_behind_add]
      exact congrArg (fun i => MemberId.mk (type.members.length + i)) hmember

theorem embeds_exchange (first second : ListedType) (listing : Listing) :
    Embeds (.exchange first.members.length second.members.length) (first :: second :: listing)
      (second :: first :: listing) where
  type := by
    intro place found hfound
    match place with
    | 0 => exact hfound
    | 1 => exact hfound
    | place + 2 => exact hfound
  member := by
    intro place offset found hfound hoffset
    match place with
    | 0 =>
      cases hfound
      show _ = MemberId.mk (firstMember (second :: first :: listing) 1 + offset)
      rw [firstMember, firstMember, firstMember, Nat.add_zero, Nat.zero_add]
      exact Renumbering.member_exchange_first hoffset
    | 1 =>
      cases hfound
      show _ = MemberId.mk (firstMember (second :: first :: listing) 0 + offset)
      rw [firstMember, firstMember, firstMember, Nat.add_zero, Nat.zero_add]
      exact Renumbering.member_exchange_second hoffset
    | place + 2 =>
      show _ = MemberId.mk (firstMember (second :: first :: listing) (place + 2) + offset)
      rw [firstMember, firstMember, firstMember, firstMember, Nat.add_assoc, Nat.add_assoc,
        Renumbering.member_exchange_rest, Nat.add_assoc, Nat.add_assoc]

theorem Embeds.andThen {last : Listing} (h : listing.Embeds ρ other) (hlast : other.Embeds σ last) :
    listing.Embeds (ρ.andThen σ) last where
  type htype := hlast.type (h.type htype)
  member htype hoffset :=
    (congrArg σ.member (h.member htype hoffset)).trans (hlast.member (h.type htype) hoffset)

/-- A listing is found in every permutation of it. -/
theorem exists_embeds_of_perm (h : listing.Perm other) : ∃ ρ, listing.Embeds ρ other := by
  induction h with
  | nil => exact ⟨.identity, nofun, nofun⟩
  | cons type _ ih =>
    obtain ⟨ρ, hρ⟩ := ih
    exact ⟨_, hρ.cons type⟩
  | swap first second listing => exact ⟨_, embeds_exchange second first listing⟩
  | trans _ _ ih ihLast =>
    obtain ⟨ρ, hρ⟩ := ih
    obtain ⟨σ, hσ⟩ := ihLast
    exact ⟨_, hρ.andThen hσ⟩

end Listing

end DocRef
