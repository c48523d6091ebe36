import FlowRule.Outbox.Routing

/- Endpoints of tenant services whose host is an address, outside local environments
   (validate_service_endpoint of rust-worker/src/runtime/effects.rs, isPublicIP of
   internal/adapters/effects/domain_service_sender.go).

   The Rust worker parses the host as it stands in the URL. An address of sixteen bytes stands
   there in brackets and passes for a name; of the addresses of four bytes only private,
   loopback, link-local and unspecified ones are refused. -/
namespace FlowRule.Routing

open IpAddr

/-! Networks. -/

section
variable {w : Nat} {a : BitVec w}

theorem within_append (nets nets' : List (BitVec w × Nat)) :
    within a (nets ++ nets') = (within a nets || within a nets') := by
  unfold within
  rw [List.any_append]

end

/-- 127.0.0.0/8 and 169.254.0.0/16: with the private ones, what the Rust worker refuses
    besides 0.0.0.0. -/
def localNets : List (BitVec 32 × Nat) := [(0x7F000000, 8), (0xA9FE0000, 16)]

/-- 224.0.0.0/4 and the reserved networks: not public, and not refused by the Rust worker
    except for 0.0.0.0. -/
def missedIPv4 : List (BitVec 32 × Nat) := (0xE0000000, 4) :: reservedIPv4CIDRs

/-- fc00::/7, fe80::/10, ff00::/8 and the reserved networks. -/
def nonPublicIPv6 : List (BitVec 128 × Nat) :=
  (0xfc00 <<< 112, 7) :: (0xfe80 <<< 112, 10) :: (0xff00 <<< 112, 8) :: reservedIPv6CIDRs

/-! What is public. -/

theorem linkLocalMulticast_multicast {ip : IpAddr} (h : ip.isLinkLocalMulticast = true) : ip.isMulticast = true := by
  cases ip with
  | v4 a =>
    simp only [isLinkLocalMulticast, isMulticast, within, List.any_cons, List.any_nil, Bool.or_false,
      beq_iff_eq] at h ⊢
    have hshift : a >>> (32 - 4) = (a >>> (32 - 24)) >>> 20 := by rw [← BitVec.shiftRight_add]
    rw [hshift, h]
    rfl
  | v6 a =>
    simp only [isLinkLocalMulticast, isMulticast, within, List.any_cons, List.any_nil, Bool.or_false,
      beq_iff_eq] at h ⊢
    have hlt : (a >>> 120).toNat < 2 ^ 8 := by
      rw [BitVec.toNat_ushiftRight, Nat.shiftRight_eq_div_pow]
      have := a.isLt
      omega
    -- the mask keeps the upper byte whole
    have hupper : (a >>> 120) &&& 0xff#128 = 0xff#128 := by
      have hshift := congrArg (fun x : BitVec 128 => x >>> 8) h
      simp only [BitVec.ushiftRight_and_distrib, ← BitVec.shiftRight_add] at hshift
      exact hshift
    apply BitVec.eq_of_toNat_eq
    have hnat := congrArg BitVec.toNat hupper
    rw [BitVec.toNat_and] at hnat
    have hmod := Nat.and_two_pow_sub_one_eq_mod (a >>> 120).toNat 8
    rw [Nat.mod_eq_of_lt hlt] at hmod
    exact hmod.symm.trans hnat

theorem isNonPublicAddress_eq (ip : IpAddr) : Go.isNonPublicAddress ip =
    (ip.isPrivate || ip.isLoopback || ip.isLinkLocalUnicast || ip.isUnspecified || ip.isMulticast ||
      ip == .v4 0xFFFFFFFF) := by
  have hll : ip.isLinkLocalMulticast = true → ip.isMulticast = true := linkLocalMulticast_multicast
  unfold Go.isNonPublicAddress isGlobalUnicast bne
  revert hll
  generalize ip.isPrivate = p, ip.isLoopback = l, ip.isLinkLocalUnicast = u, ip.isLinkLocalMulticast = k,
    ip.isUnspecified = z, ip.isMulticast = m, (ip == .v4 0xFFFFFFFF) = b
  revert p l u k z m b
  decide

theorem isPublicIP_v4 (a : BitVec 32) :
    Go.isPublicIP (.v4 a) = !within a (privateNets ++ localNets ++ missedIPv4) := by
  have hzero : isUnspecified (.v4 a) = true → within a reservedIPv4CIDRs = true := by
    intro h
    obtain rfl : a = 0 := by simpa [isUnspecified] using h
    decide
  have hbroadcast : (v4 a == .v4 0xFFFFFFFF) = true → within a reservedIPv4CIDRs = true := by
    intro h
    obtain rfl : a = 0xFFFFFFFF := by simpa using h
    decide
  have hlocal : within a localNets = (isLoopback (.v4 a) || isLinkLocalUnicast (.v4 a)) := by
    simp [within, localNets, isLoopback, isLinkLocalUnicast]
  have hmissed : within a missedIPv4 = (isMulticast (.v4 a) || within a reservedIPv4CIDRs) := by
    simp [within, missedIPv4, isMulticast]
  rw [within_append, within_append, hlocal, hmissed]
  unfold Go.isPublicIP
  rw [isNonPublicAddress_eq]
  show (!(within a privateNets || _ || _ || _ || _ || _) && !_) = _
  revert hzero hbroadcast
  generalize within a privateNets = p, isLoopback (.v4 a) = l, isLinkLocalUnicast (.v4 a) = u,
    isUnspecified (.v4 a) = z, isMulticast (.v4 a) = m, (v4 a == .v4 0xFFFFFFFF) = b,
    within a reservedIPv4CIDRs = r
  revert p l u z m b r
  decide

theorem isPublicIP_v6 (a : BitVec 128) : Go.isPublicIP (.v6 a) = !within a nonPublicIPv6 := by
  have hzero : isUnspecified (.v6 a) = true → within a reservedIPv6CIDRs = true := by
    intro h
    obtain rfl : a = 0 := by simpa [isUnspecified] using h
    decide
  have hone : isLoopback (.v6 a) = true → within a reservedIPv6CIDRs = true := by
    intro h
    obtain rfl : a = 1 := by simpa [isLoopback] using h
    decide
  have hnets : within a nonPublicIPv6 = (isPrivate (.v6 a) || (isLinkLocalUnicast (.v6 a) ||
      (isMulticast (.v6 a) || within a reservedIPv6CIDRs))) := by
    simp [within, nonPublicIPv6, isPrivate, isLinkLocalUnicast, isMulticast]
  have hkind : (v6 a == .v4 0xFFFFFFFF) = false := rfl
  unfold Go.isPublicIP
  rw [isNonPublicAddress_eq, hnets, hkind]
  show (!_ && !within a reservedIPv6CIDRs) = _
  revert hzero hone
  generalize isPrivate (.v6 a) = p, isLoopback (.v6 a) = l, isLinkLocalUnicast (.v6 a) = u,
    isUnspecified (.v6 a) = z, isMulticast (.v6 a) = m, within a reservedIPv6CIDRs = r
  revert p l u z m r
  decide

/-! What the Rust worker refuses. -/

theorem isNonPublicIP_v4 (a : BitVec 32) :
    Rust.isNonPublicIP (.v4 a) = (within a (privateNets ++ localNets) || a == 0) := by
  have hlocal : within a localNets = (isLoopback (.v4 a) || isLinkLocalUnicast (.v4 a)) := by
    simp [within, localNets, isLoopback, isLinkLocalUnicast]
  rw [within_append, hlocal, ← Bool.or_assoc]
  rfl

theorem refused_not_missed {a : BitVec 32} (h : within a (privateNets ++ localNets) = true) :
    within a missedIPv4 = false := by
  have hnet : ∀ net : BitVec 32 × Nat, (a >>> (32 - net.2) == net.1 >>> (32 - net.2)) =
      decide (a.toNat / 2 ^ (32 - net.2) = net.1.toNat / 2 ^ (32 - net.2)) := by
    intro net
    rw [Bool.beq_eq_decide_eq]
    simp only [← BitVec.toNat_inj, BitVec.toNat_ushiftRight, Nat.shiftRight_eq_div_pow]
  simp only [within, privateNets, localNets, missedIPv4, reservedIPv4CIDRs, hnet, List.any_append,
    List.any_cons, List.any_nil,
    Bool.or_false, Bool.or_eq_true, Bool.or_eq_false_iff, decide_eq_true_eq, decide_eq_false_iff_not] at h ⊢
  simp only [BitVec.reduceToNat, Nat.reduceSub, Nat.reducePow, Nat.reduceDiv] at h ⊢
  omega

/-- The address is in none of the networks that are not public and that the Rust worker does
    not refuse: for four bytes those it misses, for sixteen bytes all of them, read as four
    bytes in ::ffff:0:0/96. -/
def OutsideMissed : IpAddr → Prop
  | .v4 a => a = 0 ∨ within a missedIPv4 = false
  | .v6 a =>
    if a >>> 32 = 0xffff then within (a.truncate 32) (privateNets ++ localNets ++ missedIPv4) = false
    else within a nonPublicIPv6 = false

instance (a : IpAddr) : Decidable (OutsideMissed a) :=
  match a with
  | .v4 a => inferInstanceAs (Decidable (a = 0 ∨ within a missedIPv4 = false))
  | .v6 a => inferInstanceAs (Decidable (if a >>> 32 = 0xffff then _ = false else _ = false))

/-- A URL with an address as its host is accepted if it is plain and the address is not one
    that parses and is refused. -/
theorem rustCallback_literal {net : Network} {endpoint : String} {url : RustUrl} {a : IpAddr}
    (hparse : net.rustUrl endpoint = .ok url) (hhost : url.host = some (.ip a)) :
    RustCallback net endpoint ↔ PlainUrl url ∧ (Rust.literal (.ip a)).any Rust.isNonPublicIP = false := by
  simp only [rustCallback_iff, RustEndpoint, hparse, Except.ok.injEq, exists_eq_left', hhost, Option.bind_some,
    ne_eq, reduceCtorEq, not_false_eq_true, true_and]

/-- For every endpoint whose host is an address: that the Rust worker accepts only a public
    one is to say that the URL is refused for something else, or the address is in none of
    the missed networks. -/
theorem literal_public_iff {net : Network} {endpoint : String} {url : RustUrl} {a : IpAddr}
    (hparse : net.rustUrl endpoint = .ok url) (hhost : url.host = some (.ip a)) :
    (RustCallback net endpoint → Go.isPublicIP a.to4 = true) ↔ (PlainUrl url → OutsideMissed a) := by
  rw [rustCallback_literal hparse hhost, and_imp]
  refine forall_congr' (fun _ => ?_)
  cases a with
  | v4 a =>
    show (Rust.isNonPublicIP (.v4 a) = false → Go.isPublicIP (.v4 a) = true) ↔ (a = 0 ∨ within a missedIPv4 = false)
    rw [isNonPublicIP_v4, isPublicIP_v4, within_append (privateNets ++ localNets)]
    cases hrefused : within a (privateNets ++ localNets) with
    | true =>
      rw [refused_not_missed hrefused]
      simp
    | false => simp [or_iff_not_imp_left]
  | v6 a =>
    have hnone : (Rust.literal (.ip (.v6 a))).any Rust.isNonPublicIP = false := rfl
    rw [hnone, forall_prop_of_true rfl]
    simp only [to4, OutsideMissed]
    by_cases hmapped : a >>> 32 = 0xffff
    · rw [if_pos hmapped, if_pos hmapped, isPublicIP_v4]
      rw [Bool.not_eq_true']
    · rw [if_neg hmapped, if_neg hmapped, isPublicIP_v6]
      rw [Bool.not_eq_true']

/-! A public address, and loopback in brackets. -/

namespace Endpoint

def network : Network :=
  { Sample.network with
    rustUrl := fun text =>
      if text = "https://93.184.216.34/hook" then
        .ok ⟨"https", "", none, some (.ip (.v4 0x5DB8D822)), none, "https://93.184.216.34", some "/hook", ""⟩
      else if text = "https://[::1]/hook" then
        .ok ⟨"https", "", none, some (.ip (.v6 1)), none, "https://[::1]", some "/hook", ""⟩
      else .error (.msg "relative URL without a base") }

end Endpoint

theorem literal_public_example :
    RustCallback Endpoint.network "https://93.184.216.34/hook" ∧ Go.isPublicIP (to4 (.v4 0x5DB8D822)) = true := by
  have hcall : RustCallback Endpoint.network "https://93.184.216.34/hook" := ⟨_, rfl⟩
  refine ⟨hcall, ?_⟩
  apply (@literal_public_iff Endpoint.network "https://93.184.216.34/hook" _ (.v4 0x5DB8D822) rfl rfl).mpr _ hcall
  intro _
  decide

/-- The Rust worker would call itself. -/
theorem loopback_accepted :
    RustCallback Endpoint.network "https://[::1]/hook" ∧ Go.isPublicIP (to4 (.v6 1)) = false := by
  refine ⟨?_, by decide⟩
  exact ⟨_, rfl⟩

end FlowRule.Routing
