import HyperionVpn.Client.VirtualIps

/-! Which of the resolved addresses the TUN device can stand for. Those that
are assigned always can; one that is taken from the file is not looked at. -/
namespace HyperionVpn.Client
open Net

/-- A host of the subnet, other than the device itself. -/
structure Usable (tun : TunConfig) (ip : Ipv4Addr) : Prop where
  inside : ip.toNat / 2 ^ tun.hostBits = tun.addr.toNat / 2 ^ tun.hostBits
  network : ip.toNat ≠ tun.network
  broadcast : ip.toNat ≠ tun.network + 2 ^ tun.hostBits - 1
  other : ip ≠ tun.addr

instance (tun : TunConfig) (ip : Ipv4Addr) : Decidable (Usable tun ip) :=
  decidable_of_iff (ip.toNat / 2 ^ tun.hostBits = tun.addr.toNat / 2 ^ tun.hostBits ∧
      ip.toNat ≠ tun.network ∧ ip.toNat ≠ tun.network + 2 ^ tun.hostBits - 1 ∧ ip ≠ tun.addr)
    ⟨fun ⟨inside, network, broadcast, other⟩ => ⟨inside, network, broadcast, other⟩,
      fun usable => ⟨usable.inside, usable.network, usable.broadcast, usable.other⟩⟩

theorem usable_of_mem_hosts {tun : TunConfig} {ip : Ipv4Addr} (member : ip ∈ tun.hosts) :
    Usable tun ip := by
  obtain ⟨low, high, other⟩ := TunConfig.mem_hosts.mp member
  have first : 0 < virtualHostStart := by decide
  refine ⟨?_, by omega, by omega, other⟩
  apply Nat.div_eq_of_lt_le
  · change tun.network ≤ ip.toNat
    omega
  · rw [Nat.succ_mul]
    change ip.toNat < tun.network + 2 ^ tun.hostBits
    omega

theorem usable_of_mem_pool {tun : TunConfig} {servers : List ServerSection} {ip : Ipv4Addr}
    (member : ip ∈ pool tun servers) : Usable tun ip := by
  apply usable_of_mem_hosts
  exact (FirstFit.mem_free.mp member).1

/-- The addresses that the sections state are usable. -/
def StatesUsable (tun : TunConfig) (servers : List ServerSection) : Prop :=
  ∀ s ∈ servers, ∀ vip, s.virtualIp = some vip → ∀ ip, Ipv4Addr.parse vip = some ip → Usable tun ip

/-- An assigned address is usable whatever the sections state. -/
theorem Resolves.usable {tun : TunConfig} {servers : List ServerSection} {ips : List Ipv4Addr}
    (resolves : Resolves tun servers ips) {i : Nat} {s : ServerSection} {ip : Ipv4Addr}
    (here : servers[i]? = some s) (plain : s.virtualIp = none) (found : ips[i]? = some ip) :
    Usable tun ip := by
  have low := resolves.lowest i s here plain
  rw [found] at low
  apply usable_of_mem_pool
  exact List.mem_of_getElem? low.symm

/-- The addresses are usable exactly if the stated ones are, whenever they were
written and whatever the section was then. -/
theorem virtual_ips_usable_iff (tun : TunConfig) (servers : List ServerSection)
    (ips : List Ipv4Addr) (ok : resolveVirtualIps tun servers = .ok ips) :
    (∀ ip ∈ ips, Usable tun ip) ↔ StatesUsable tun servers := by
  have resolves := resolves ok
  constructor
  · intro usable s member vip stated ip address
    obtain ⟨i, here⟩ := List.mem_iff_getElem?.mp member
    apply usable
    have found := resolves.explicit i s vip here stated
    exact List.mem_of_getElem? (found.trans address)
  · intro states ip member
    obtain ⟨i, found⟩ := List.mem_iff_getElem?.mp member
    obtain ⟨inside, -⟩ := List.getElem?_eq_some_iff.mp found
    rw [resolves.length] at inside
    have here : servers[i]? = some servers[i] := List.getElem?_eq_getElem inside
    cases stated : servers[i].virtualIp with
    | none => exact resolves.usable here stated found
    | some vip =>
      have address := resolves.explicit i servers[i] vip here stated
      exact states servers[i] (List.getElem_mem inside) vip stated ip
        (address.symm.trans found)

/-- `add_server` wrote the address while the device was 10.99.0.1. -/
def sampleMoved : TunSection := ⟨"10.98.0.1", 24, 1400⟩

def sampleServers : List ServerSection :=
  [⟨"a", "192.0.2.1:8443", "", some "10.99.0.10", none, none, none⟩,
   ⟨"b", "192.0.2.2:8443", "", none, none, none, none⟩]

theorem stale_address_unusable : ¬ ∀ (section_ : TunSection) (tun : TunConfig)
    (servers : List ServerSection) (ips : List Ipv4Addr), parseTun section_ = .ok tun →
    resolveVirtualIps tun servers = .ok ips → ∀ ip ∈ ips, Usable tun ip := by
  intro claim
  let tun : TunConfig := ⟨⟨10, 98, 0, 1⟩, 24, 1400, by decide, by decide⟩
  have addr : Ipv4Addr.parse "10.98.0.1" = some tun.addr := by decide +kernel
  have parsed : parseTun sampleMoved = .ok tun := by
    simp only [parseTun, sampleMoved, addr]
    rfl
  have resolved : resolveVirtualIps tun sampleServers =
      .ok [⟨10, 99, 0, 10⟩, ⟨10, 98, 0, 10⟩] := by decide +kernel
  have usable := claim sampleMoved tun sampleServers _ parsed resolved ⟨10, 99, 0, 10⟩
    List.mem_cons_self
  exact absurd usable (by decide)

/-- The first has an address of the new subnet, and the second is given one. -/
def sampleInside : List ServerSection :=
  [⟨"a", "192.0.2.1:8443", "", some "10.98.0.20", none, none, none⟩,
   ⟨"b", "192.0.2.2:8443", "", none, none, none, none⟩]

theorem virtual_ips_usable_iff_sample : ∃ tun, parseTun sampleMoved = .ok tun ∧
    resolveVirtualIps tun sampleInside = .ok [⟨10, 98, 0, 20⟩, ⟨10, 98, 0, 10⟩] ∧
    ∀ ip ∈ ([⟨10, 98, 0, 20⟩, ⟨10, 98, 0, 10⟩] : List Ipv4Addr), Usable tun ip := by
  let tun : TunConfig := ⟨⟨10, 98, 0, 1⟩, 24, 1400, by decide, by decide⟩
  have addr : Ipv4Addr.parse "10.98.0.1" = some tun.addr := by decide +kernel
  have parsed : parseTun sampleMoved = .ok tun := by
    simp only [parseTun, sampleMoved, addr]
    rfl
  have resolved : resolveVirtualIps tun sampleInside = .ok [⟨10, 98, 0, 20⟩, ⟨10, 98, 0, 10⟩] := by
    decide +kernel
  refine ⟨tun, parsed, resolved, (virtual_ips_usable_iff tun _ _ resolved).mpr ?_⟩
  have stated : Ipv4Addr.parse "10.98.0.20" = some ⟨10, 98, 0, 20⟩ := by decide +kernel
  intro s member vip text ip parses
  simp only [sampleInside, List.mem_cons, List.not_mem_nil, or_false] at member
  rcases member with rfl | rfl
  · cases text
    cases stated.symm.trans parses
    decide
  · cases text

end HyperionVpn.Client
