import Mathlib
import Remoting.Proofs.Fallible
import Remoting.Proofs.RoundTrip
import Remoting.Proofs.TypeLayers

/-! Members across the wire. An identity leads back to the member that it was made of or to none at
all, and whatever bytes arrive, a handle that is read from them is one of a registered member. -/

namespace Remoting

/-- The parameters under generic arguments, each placeholder of which needs its argument. Without
any arguments they stay open. -/
def Member.parametersUnder (member : Member) (arguments : List WireType) : Option (List WireType) :=
  if arguments = [] then some member.parameters
  else member.parameters.mapM (·.substitute arguments)

/-- The placeholders of a callable member stand for generic parameters of its own. -/
def Member.Scoped (member : Member) : Prop :=
  member.kind.isCallable = true → ∀ type ∈ member.parameters, ∀ index,
    WireType.generic index ∈ type.layers → index.toNat < member.arity.toNat

/-- What an identity says about the member that it is meant for. -/
structure MemberIdentity.Describes (identity : MemberIdentity) (member : Member) : Prop where
  kind : member.kind = identity.kind
  declaring : member.declaring = identity.declaring
  name : member.name = identity.name
  signature : identity.kind.isCallable = true → member.arity = identity.arity ∧
    member.parametersUnder identity.arguments = some identity.parameters

namespace MemberIdentity

variable {identity : MemberIdentity} {member : Member}

theorem signatureMatches_iff : identity.signatureMatches member = true ↔
    member.arity = identity.arity ∧
      member.parametersUnder identity.arguments = some identity.parameters := by
  have hparameters : member.parametersUnder identity.arguments = some identity.parameters ↔
      List.Forall₂ (fun declared carried => identity.parameterMatches declared carried = true)
        member.parameters identity.parameters := by
    unfold Member.parametersUnder parameterMatches
    by_cases harguments : identity.arguments = []
    · simp [harguments]
    · simp [harguments, mapM_eq_some_iff]
  simp only [signatureMatches, Bool.and_eq_true, beq_iff_eq, List.all_eq_true, and_assoc, hparameters,
    List.forall₂_iff_zip, Prod.forall]

theorem designates_iff : identity.designates member = true ↔ identity.Describes member := by
  simp only [designates, picks, Bool.and_eq_true, beq_iff_eq, Bool.or_eq_true, Bool.not_eq_true',
    signatureMatches_iff]
  constructor
  · intro h
    obtain ⟨⟨hdeclaring, hname⟩, hkind, hsignature⟩ := h
    exact ⟨hkind, hdeclaring, hname, fun hcall => hsignature.resolve_left (by simp [hcall])⟩
  · intro h
    refine ⟨⟨h.declaring, h.name⟩, h.kind, ?_⟩
    cases hcall : identity.kind.isCallable with
    | true => exact .inr (h.signature hcall)
    | false => exact .inl rfl

theorem describes_carried : identity.carried.Describes member ↔ identity.Describes member := by
  rw [← designates_iff, ← designates_iff, designates_carried]

end MemberIdentity

namespace MemberHandle

variable {handle : MemberHandle}

theorem parametersUnder_eq (h : handle.member.Scoped) (hcall : handle.member.kind.isCallable = true) :
    handle.member.parametersUnder handle.arguments = some handle.parameters := by
  unfold Member.parametersUnder parameters
  by_cases harguments : handle.arguments = []
  · simp [harguments]
  · have hcount := handle.argumentCount.resolve_left harguments
    have hempty : ¬handle.arguments.isEmpty = true := by simpa using harguments
    rw [if_neg harguments, if_neg hempty, mapM_eq_some_iff, List.forall₂_map_right_iff]
    refine List.forall₂_same.mpr fun type hmem => ?_
    cases hsubstitute : type.substitute handle.arguments with
    | some closed => rfl
    | none =>
      obtain ⟨index, hindex, hle⟩ := WireType.substitute_eq_none_iff.mp hsubstitute
      have hlt := h hcall type hmem index (WireType.placeholder?_eq_some_iff.mp hindex)
      omega

theorem identity_describes (h : handle.member.Scoped) : handle.identity.Describes handle.member where
  kind := rfl
  declaring := rfl
  name := rfl
  signature := fun hcall => ⟨rfl, parametersUnder_eq h hcall⟩

end MemberHandle

namespace Registry

theorem mem_ofList {members : List Member} {member : Member} :
    member ∈ (ofList members).members ↔ member ∈ members := by
  suffices ∀ registry : Registry, member ∈ (members.foldl insert registry).members ↔
      member ∈ registry.members ∨ member ∈ members from (this empty).trans (by simp)
  induction members with
  | nil => simp
  | cons first members ih => simp [ih, mem_insert, or_assoc]

variable {registry : Registry} {identity : MemberIdentity} {member : Member}

theorem mem_designated_iff :
    member ∈ registry.designated identity ↔ member ∈ registry.members ∧ identity.Describes member := by
  rw [designated_eq, List.mem_filter, MemberIdentity.designates_iff]

/-- An identity leads to a member where it describes that one and no other. -/
theorem designated_eq_singleton_iff :
    registry.designated identity = [member] ↔ (member ∈ registry.members ∧ identity.Describes member) ∧
      ∀ other ∈ registry.members, identity.Describes other → other = member := by
  constructor
  · intro h
    have hmem : ∀ other, other ∈ registry.members ∧ identity.Describes other ↔ other = member := by
      intro other
      rw [← mem_designated_iff, h, List.mem_singleton]
    exact ⟨(hmem member).mpr rfl, fun other hother hdescribes => (hmem other).mp ⟨hother, hdescribes⟩⟩
  · intro h
    obtain ⟨hmember, hunique⟩ := h
    have hsame : ∀ other ∈ registry.designated identity, other = member := fun other hother =>
      (mem_designated_iff.mp hother).elim (hunique other)
    have hreplicate := List.eq_replicate_of_mem hsame
    have hdistinct : (registry.designated identity).Nodup := by
      rw [designated_eq]
      exact registry.nodup_members.filter _
    have hpos := List.length_pos_of_mem (mem_designated_iff.mpr hmember)
    rw [hreplicate, List.nodup_replicate] at hdistinct
    rw [hreplicate, show (registry.designated identity).length = 1 by omega]
    rfl

/-- An identity that describes a registered member leads to it or to several, and never to none or to
another one alone. -/
theorem resolve_eq_ok_or_ambiguous (hmember : member ∈ registry.members)
    (hdescribes : identity.Describes member) : registry.resolve identity = .ok member ∨
      ∃ count, 2 ≤ count ∧ registry.resolve identity =
        .error (.memberNotUnique identity.kind identity.declaring identity.name count) := by
  have hmem := mem_designated_iff.mpr ⟨hmember, hdescribes⟩
  unfold resolve
  match hfound : registry.designated identity with
  | [] =>
    rw [hfound] at hmem
    cases hmem
  | [found] =>
    rw [hfound, List.mem_singleton] at hmem
    exact .inl (by rw [hmem])
  | first :: second :: others => exact .inr ⟨_, by simp, rfl⟩

theorem resolve_carried_eq (registry : Registry) (identity : MemberIdentity) :
    registry.resolve identity.carried = registry.resolve identity := by
  have hnames : identity.carried.declaring = identity.declaring ∧
      identity.carried.name = identity.name := by
    unfold MemberIdentity.carried
    split <;> exact ⟨rfl, rfl⟩
  simp only [resolve, designated_eq, MemberIdentity.designates_carried, MemberIdentity.kind_carried,
    hnames.1, hnames.2]

end Registry

/-- The members of one kind, declaring type and name, overloads of each other. -/
def Member.Namesake (member other : Member) : Prop :=
  other.kind = member.kind ∧ other.declaring = member.declaring ∧ other.name = member.name

namespace MemberHandle

variable {handle : MemberHandle} {other : Member}

theorem identity_describes_iff_of_callable (h : handle.member.Scoped)
    (hcall : handle.member.kind.isCallable = true) : handle.identity.Describes other ↔
      handle.member.Namesake other ∧ other.arity = handle.member.arity ∧
        other.parametersUnder handle.arguments = handle.member.parametersUnder handle.arguments := by
  rw [parametersUnder_eq h hcall]
  constructor
  · intro hother
    exact ⟨⟨hother.kind, hother.declaring, hother.name⟩, hother.signature hcall⟩
  · intro hother
    obtain ⟨⟨hkind, hdeclaring, hname⟩, hsignature⟩ := hother
    exact ⟨hkind, hdeclaring, hname, fun _ => hsignature⟩

theorem identity_describes_iff_of_not_callable (hcall : handle.member.kind.isCallable = false) :
    handle.identity.Describes other ↔ handle.member.Namesake other := by
  constructor
  · intro hother
    exact ⟨hother.kind, hother.declaring, hother.name⟩
  · intro hother
    refine ⟨hother.1, hother.2.1, hother.2.2, fun hcallable => ?_⟩
    rw [show handle.identity.kind = handle.member.kind from rfl, hcall] at hcallable
    cases hcallable

/-- Overloads do not have the same open parameters. -/
theorem eq_of_describes_of_plain (h : handle.member.Scoped)
    (hcall : handle.member.kind.isCallable = true) (harguments : handle.arguments = [])
    (hother : handle.identity.Describes other) : other = handle.member := by
  obtain ⟨⟨hkind, hdeclaring, hname⟩, harity, hparameters⟩ :=
    (identity_describes_iff_of_callable h hcall).mp hother
  simp only [Member.parametersUnder, harguments, if_true, Option.some.injEq] at hparameters
  cases other
  simp_all

end MemberHandle

namespace Codec

variable {registry : Registry} {handle : MemberHandle} {codec : Codec}

theorem eq_member_of_ofType {kind : MemberKind} (h : ofType registry (.member kind) = .ok codec) :
    codec = member kind registry := by
  cases catalogued_of_ofType h
  rfl

section Decoding

variable (registry : Registry) (handle : MemberHandle) (bounds : Bounds) (behind : Bytes)

/-- What a handle is written as is read as that handle exactly where its identity leads back. -/
theorem decode_handle_eq_ok_iff (hportable : handle.identity.Portable) :
    (member handle.member.kind registry).decode bounds (1 :: (handle.identity.bytes ++ behind)) =
        .ok (.member handle) behind ↔ registry.Recovers handle := by
  have haccepts := decode_accepts (.member handle.member.kind : Catalogued registry _ _) bounds
  constructor
  · intro h
    obtain ⟨bytes, _, ⟨hnull, _⟩ | ⟨found, hfound, _, hrecovers, _⟩⟩ := (haccepts _ _ _).mp h
    · cases hnull
    · cases hfound
      exact hrecovers
  · intro h
    exact (haccepts _ _ _).mpr ⟨1 :: handle.identity.bytes, rfl,
      .inr ⟨handle, rfl, rfl, h, hportable, rfl⟩⟩

theorem read_identity (hportable : handle.identity.Portable) :
    Reader.identity handle.member.kind (handle.identity.bytes ++ behind) =
      .ok handle.identity.carried behind :=
  (Reader.Accepts.identity handle.member.kind).append ⟨MemberIdentity.kind_carried _,
    MemberIdentity.carried_carried _, MemberIdentity.portable_carried.mpr hportable,
    (MemberIdentity.bytes_carried _).symm⟩ behind

theorem decode_handle_eq_error (hportable : handle.identity.Portable) {error : DecodeError}
    (h : registry.resolve handle.identity = .error error) :
    (member handle.member.kind registry).decode bounds (1 :: (handle.identity.bytes ++ behind)) =
      .error error behind := by
  have hlookup : Reader.handle registry handle.identity.carried behind = .error error behind := by
    rw [Reader.handle, Registry.resolve_carried_eq, h]
    rfl
  change (Reader.identity handle.member.kind >>= fun identity => Reader.handle registry identity >>=
    fun found => pure (Value.member found)) (handle.identity.bytes ++ behind) = _
  rw [Reader.bind_apply, read_identity handle behind hportable]
  dsimp only
  rw [Reader.bind_apply, hlookup]

end Decoding

/-- A handle that is written is read again as itself, or else as ambiguous. -/
theorem handles_survive_or_are_ambiguous {members : List Member} {handle : MemberHandle}
    {codec : Codec} (hcodec : ofType (.ofList members) (.member handle.member.kind) = .ok codec)
    (hmember : handle.member ∈ members) (hscoped : handle.member.Scoped)
    (hplain : handle.member.kind.isCallable = false → handle.arguments = []) {buffer after : Buffer}
    (hencode : codec.encode (.member handle) buffer = .ok () after) :
    ∃ bytes, buffer.Receives bytes after ∧ ∀ bounds behind,
      (codec.decode bounds (bytes ++ behind) = .ok (.member handle) behind ∨
        ∃ count, 2 ≤ count ∧ codec.decode bounds (bytes ++ behind) = .error (.memberNotUnique
          handle.member.kind handle.member.declaring handle.member.name count) behind) ∧
      (handle.member.kind.isCallable = true → handle.arguments = [] →
        codec.decode bounds (bytes ++ behind) = .ok (.member handle) behind) ∧
      (handle.member.kind.isCallable = true → handle.arguments ≠ [] →
        (codec.decode bounds (bytes ++ behind) = .ok (.member handle) behind ↔
          ∀ other ∈ members, handle.member.Namesake other → other.arity = handle.member.arity →
            other.parametersUnder handle.arguments =
              handle.member.parametersUnder handle.arguments → other = handle.member)) ∧
      (handle.member.kind.isCallable = false →
        (codec.decode bounds (bytes ++ behind) = .ok (.member handle) behind ↔
          ∀ other ∈ members, handle.member.Namesake other → other = handle.member)) := by
  obtain rfl := eq_member_of_ofType hcodec
  obtain ⟨bytes, hle, rfl, hportable, rfl⟩ := writes_handle (.ofList members) handle _ _ hencode
  refine ⟨_, Buffer.receives_write hle, fun bounds behind => ?_⟩
  have hown : handle.member ∈ (Registry.ofList members).members ∧
      handle.identity.Describes handle.member :=
    ⟨Registry.mem_ofList.mpr hmember, MemberHandle.identity_describes hscoped⟩
  -- Whether the handle survives depends on what else its identity describes.
  have hok : (member handle.member.kind (.ofList members)).decode bounds
        (1 :: handle.identity.bytes ++ behind) = .ok (.member handle) behind ↔
      ∀ other ∈ members, handle.identity.Describes other → other = handle.member := by
    rw [List.cons_append, decode_handle_eq_ok_iff _ _ _ _ hportable, Registry.Recovers,
      and_iff_left hplain, Registry.resolve_eq_ok_iff,
      Registry.designated_eq_singleton_iff, and_iff_right hown]
    simp only [Registry.mem_ofList]
  refine ⟨?_, fun hcall harguments => ?_, fun hcall _ => ?_, fun hcall => ?_⟩
  · rcases Registry.resolve_eq_ok_or_ambiguous hown.1 hown.2 with hresolve | ⟨count, htwo, hresolve⟩
    · exact .inl ((decode_handle_eq_ok_iff _ _ _ _ hportable).mpr ⟨hresolve, hplain⟩)
    · exact .inr ⟨count, htwo, decode_handle_eq_error _ _ _ _ hportable hresolve⟩
  · exact hok.mpr fun other _ => MemberHandle.eq_of_describes_of_plain hscoped hcall harguments
  · rw [hok]
    simp only [MemberHandle.identity_describes_iff_of_callable hscoped hcall, and_imp]
  · rw [hok]
    simp only [MemberHandle.identity_describes_iff_of_not_callable hcall]

/-- Overloads of one arity, which are the same under a text and differ under a blob. -/
def openOverload : Member := .method "D" "f" [.generic 0] 1

def textOverload : Member := .method "D" "f" [.text] 1

def overloadsCodec : Codec := member .method (.ofList [openOverload, textOverload])

theorem overloads_collapse_under_a_text :
    (∃ after bytes, overloadsCodec.encode (.member ⟨openOverload, [.text], .inr rfl⟩) (.filled 32 0) =
        .ok () after ∧ (Buffer.filled 32 0).Receives bytes after ∧ ∃ count, 2 ≤ count ∧
      overloadsCodec.decode .strict (bytes ++ []) =
        .error (.memberNotUnique .method "D" "f" count) []) ∧
    ∃ after bytes, overloadsCodec.encode (.member ⟨openOverload, [.blob], .inr rfl⟩) (.filled 32 0) =
        .ok () after ∧ (Buffer.filled 32 0).Receives bytes after ∧
      overloadsCodec.decode .strict (bytes ++ []) =
        .ok (.member ⟨openOverload, [.blob], .inr rfl⟩) [] := by
  have hscoped : openOverload.Scoped := by
    intro _ type hmem index hindex
    obtain rfl := List.mem_singleton.mp hmem
    cases List.mem_singleton.mp hindex
    decide
  have hcodec : ofType (.ofList [openOverload, textOverload]) (.member .method) =
    .ok overloadsCodec := rfl
  constructor
  · obtain ⟨after, hencode⟩ : ∃ after, overloadsCodec.encode
      (.member ⟨openOverload, [.text], .inr rfl⟩) (.filled 32 0) = .ok () after := ⟨_, rfl⟩
    obtain ⟨bytes, hreceives, hdecode⟩ := handles_survive_or_are_ambiguous hcodec
      List.mem_cons_self hscoped (fun h => absurd h (by decide)) hencode
    obtain ⟨heither, _, hconstructed, _⟩ := hdecode .strict []
    refine ⟨after, bytes, hencode, hreceives, heither.resolve_left fun hok => ?_⟩
    have hsame := (hconstructed rfl nofun).mp hok textOverload (by simp) ⟨rfl, rfl, rfl⟩ rfl rfl
    cases hsame
  · obtain ⟨after, hencode⟩ : ∃ after, overloadsCodec.encode
      (.member ⟨openOverload, [.blob], .inr rfl⟩) (.filled 32 0) = .ok () after := ⟨_, rfl⟩
    obtain ⟨bytes, hreceives, hdecode⟩ := handles_survive_or_are_ambiguous hcodec
      List.mem_cons_self hscoped (fun h => absurd h (by decide)) hencode
    obtain ⟨_, _, hconstructed, _⟩ := hdecode .strict []
    refine ⟨after, bytes, hencode, hreceives, (hconstructed rfl nofun).mpr fun other hmem => ?_⟩
    rcases List.mem_pair.mp hmem with rfl | rfl
    · exact fun _ _ _ => rfl
    · intro _ _ hparameters
      cases hparameters

/-- A handle that is read is one of the member, the only one, that its bytes describe. -/
theorem decoded_handles_are_registered {members : List Member} {kind : MemberKind} {codec : Codec}
    (hcodec : ofType (.ofList members) (.member kind) = .ok codec) {bounds : Bounds}
    {input rest : Bytes} {handle : MemberHandle}
    (hdecode : codec.decode bounds input = .ok (.member handle) rest) :
    ∃ identity, input = 1 :: (identity.bytes ++ rest) ∧
      Reader.identity kind (identity.bytes ++ rest) = .ok identity rest ∧
      handle.member ∈ members ∧ handle.member.kind = kind ∧
      handle.member.declaring = identity.declaring ∧ handle.member.name = identity.name ∧
      (∀ other ∈ members, identity.Describes other → other = handle.member) ∧
      (kind.isCallable = true → handle.member.arity = identity.arity ∧
        handle.arguments = identity.arguments ∧
        (handle.arguments = [] ∨ handle.arguments.length = handle.member.arity.toNat) ∧
        handle.parameters = identity.parameters ∧
        handle.member.parametersUnder handle.arguments = some identity.parameters) ∧
      (kind.isCallable = false → handle.arguments = []) := by
  have hspelled := (decode_accepts (catalogued_of_ofType hcodec) bounds _ _ _).mp hdecode
  obtain rfl := eq_member_of_ofType hcodec
  obtain ⟨_, rfl, ⟨hnull, _⟩ | ⟨_, hfound, rfl, ⟨hresolve, hplain⟩, hportable, rfl⟩⟩ := hspelled
  · cases hnull
  cases hfound
  obtain ⟨⟨hmember, hdescribes⟩, hunique⟩ :=
    Registry.designated_eq_singleton_iff.mp (Registry.resolve_eq_ok_iff.mp hresolve)
  have hcarried := MemberIdentity.describes_carried.mpr hdescribes
  refine ⟨handle.identity.carried, ?_, ?_, Registry.mem_ofList.mp hmember, rfl, hcarried.declaring,
    hcarried.name, fun other hother hdescribed => ?_, fun hcall => ?_, hplain⟩
  · rw [MemberIdentity.bytes_carried, List.cons_append]
  · rw [MemberIdentity.bytes_carried]
    exact read_identity handle rest hportable
  · exact hunique other (Registry.mem_ofList.mpr hother)
      (MemberIdentity.describes_carried.mp hdescribed)
  · have hsame : handle.identity.carried = handle.identity := if_pos hcall
    rw [hsame]
    exact ⟨rfl, rfl, handle.argumentCount, rfl, (hdescribes.signature hcall).2⟩

/-- The identity of the open overload under a blob, as bytes. -/
def overloadBytes : Bytes :=
  [1, 1, 0, 0, 0, 68, 1, 0, 0, 0, 102, 1, 0, 1, 0, 13, 1, 0, 13]

theorem overload_under_a_blob_is_registered :
    overloadsCodec.decode .relaxed overloadBytes =
        .ok (.member ⟨openOverload, [.blob], .inr rfl⟩) [] ∧
      ∃ identity : MemberIdentity, overloadBytes = 1 :: (identity.bytes ++ []) ∧
        identity.arity = 1 ∧ identity.arguments = [.blob] ∧ identity.parameters = [.blob] ∧
        ∀ other ∈ [openOverload, textOverload], identity.Describes other → other = openOverload := by
  have hdecode : overloadsCodec.decode .relaxed overloadBytes =
    .ok (.member ⟨openOverload, [.blob], .inr rfl⟩) [] := rfl
  have hcodec : ofType (.ofList [openOverload, textOverload]) (.member .method) =
    .ok overloadsCodec := rfl
  obtain ⟨identity, hinput, _, _, _, _, _, hunique, hcallable, _⟩ :=
    decoded_handles_are_registered hcodec hdecode
  obtain ⟨harity, harguments, _, hparameters, _⟩ := hcallable rfl
  exact ⟨hdecode, identity, hinput, harity.symm, harguments.symm, hparameters.symm, hunique⟩

end Codec

end Remoting
