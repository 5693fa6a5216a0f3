import KvmRs.AddrGrammarProofs
import KvmRs.ConnectProofs
import KvmRs.Socks5Proofs
import Mathlib.Data.Char
import Mathlib.Data.List.AList
import Mathlib.Data.List.Lex

/-! # Discovering servers

    `discover_servers`: mDNS events arrive until the deadline, a map keeps one
    server for each service, and its values are sorted by name.  The address
    of a server is text that `Session::connect` takes apart again, so what is
    shown of an IP address has to survive that. -/

namespace KvmDiscovery

open KvmText KvmAddr KvmAddrGrammar KvmConnect KvmSocks5

inductive IpAddr where
  | v4 (octets : Vector UInt8 4)
  | v6 (octets : Vector UInt8 16)
  deriving DecidableEq

/-- `IpAddr` as text. -/
def IpAddr.text : IpAddr → List Char
  | .v4 octets => ipv4Text octets.toList
  | .v6 octets => ipv6Text octets

/-- A resolved service.  The two sets of addresses are listed in the order in
    which each of them is iterated. -/
structure ServiceInfo where
  fullname : List Char
  hostname : List Char
  port : UInt16
  addresses : List IpAddr
  addressesV4 : List (Vector UInt8 4)
  mem_v4 : ∀ a, a ∈ addressesV4 ↔ IpAddr.v4 a ∈ addresses

/-- What one turn of the loop receives. -/
inductive Received where
  | resolved (info : ServiceInfo)
  | other
  | error

structure DiscoveredServer where
  name : List Char
  host : List Char
  port : UInt16
  /-- `host:port`, IPv6 hosts bracketed. -/
  address : List Char
  deriving DecidableEq

/-- An IPv4 address if there is one. -/
def ServiceInfo.address (info : ServiceInfo) : Option IpAddr :=
  (info.addressesV4.head?.map IpAddr.v4).or info.addresses.head?

def ServiceInfo.name (info : ServiceInfo) : List Char :=
  let name := info.hostname.rdropWhile (· = '.')
  if name = [] then info.fullname else name

/-- The entry for a service, if it has an address. -/
def describe (info : ServiceInfo) : Option DiscoveredServer :=
  info.address.map fun addr =>
    { name := info.name
      host := addr.text
      port := info.port
      address := formatHostPort addr.text info.port }

/-- The map from full names to servers. -/
abbrev Found := AList fun _ : List Char => DiscoveredServer

def receive (found : Found) : Received → Found
  | .resolved info =>
      match describe info with
      | some server => found.insert info.fullname server
      | none => found
  | .other => found
  | .error => found

/-- `sort_by` on the names; bytes of UTF-8 compare like the characters. -/
def sortByName (servers : List DiscoveredServer) : List DiscoveredServer :=
  servers.mergeSort fun a b => decide (a.name ≤ b.name)

/-- `discover_servers` on what it receives before the deadline; `order` is the
    order in which the map hands out its values. -/
def discoverServers (order : List DiscoveredServer → List DiscoveredServer)
    (events : List Received) : List DiscoveredServer :=
  sortByName (order ((events.foldl receive ∅).entries.map Sigma.snd))

/-- `--discover`: the address of the first server. -/
def discoveredAddr (servers : List DiscoveredServer) : Option (List Char) :=
  servers.head?.map DiscoveredServer.address

/-! ## Addresses as text -/

/-- The characters of an IP address. -/
def addrChars : List Char := "0123456789abcdef:.".toList

def AddrText (s : List Char) : Prop := ∀ c ∈ s, c ∈ addrChars

instance addrTextDecidable (s : List Char) : Decidable (AddrText s) :=
  List.decidableBAll (· ∈ addrChars) s

theorem addrText_append {s t : List Char} (hs : AddrText s)
    (ht : AddrText t) : AddrText (s ++ t) := by
  intro c hc
  exact (List.mem_append.mp hc).elim (hs c) (ht c)

theorem addrText_intercalate {sep : List Char} {ls : List (List Char)}
    (hsep : AddrText sep) (hls : ∀ l ∈ ls, AddrText l) :
    AddrText (sep.intercalate ls) := by
  intro c hc
  obtain ⟨l, hl, hcl⟩ := List.mem_flatten.mp hc
  rcases mem_intersperse hl with rfl | hl
  · exact hsep c hcl
  · exact hls l hl c hcl

/-- Numbers in decimal and in hexadecimal. -/
theorem addrText_toDigits {b : Nat} (hb : 1 < b) (hb' : b ≤ 16) (n : Nat) :
    AddrText (Nat.toDigits b n) := by
  have hdigit : ∀ d < 16, Nat.digitChar d ∈ addrChars := by decide
  induction n using Nat.strong_induction_on with
  | _ n ih =>
      intro c hc
      by_cases hn : n < b
      · rw [Nat.toDigits_of_lt_base hn, List.mem_singleton] at hc
        rw [hc]
        exact hdigit n (by omega)
      · rw [Nat.toDigits_of_base_le hb (by omega), List.mem_append,
          List.mem_singleton] at hc
        rcases hc with hc | rfl
        · exact ih (n / b) (Nat.div_lt_self (by omega) hb) c hc
        · have hlt : n % b < b := Nat.mod_lt n (by omega)
          exact hdigit _ (by omega)

theorem addrText_ipv4 (octets : List UInt8) : AddrText (ipv4Text octets) := by
  refine addrText_intercalate (by decide) ?_
  intro l hl
  obtain ⟨o, -, rfl⟩ := List.mem_map.mp hl
  exact addrText_toDigits (by decide) (by decide) o.toNat

theorem addrText_fmtSubslice (chunk : List Nat) :
    AddrText (fmtSubslice chunk) := by
  refine addrText_intercalate (by decide) ?_
  intro l hl
  obtain ⟨n, -, rfl⟩ := List.mem_map.mp hl
  exact addrText_toDigits (by decide) (by decide) n

theorem addrText_ipv6 (ip : Vector UInt8 16) : AddrText (ipv6Text ip) := by
  rw [ipv6Text]
  split
  · exact addrText_append (by decide) (addrText_ipv4 _)
  · simp only []
    split
    · exact addrText_append (addrText_append (addrText_fmtSubslice _)
        (by decide)) (addrText_fmtSubslice _)
    · exact addrText_fmtSubslice _

theorem intercalate_ne_nil {sep l : List Char} {ls : List (List Char)}
    (h : l ≠ []) : sep.intercalate (l :: ls) ≠ [] := by
  cases ls with
  | nil => rwa [List.intercalate_singleton]
  | cons l' ls =>
      rw [List.intercalate_cons_cons]
      exact List.append_ne_nil_of_left_ne_nil
        (List.append_ne_nil_of_left_ne_nil h sep) _

theorem ipv4Text_ne_nil (octets : Vector UInt8 4) :
    ipv4Text octets.toList ≠ [] := by
  rw [toList_four]
  exact intercalate_ne_nil Nat.toDigits_ne_nil

theorem segments_ip (ip : Vector UInt8 16) :
    ∃ n ns, segments ip.toList = n :: ns := by
  have hlen : ip.toList.length = 16 := Vector.length_toList
  match hip : ip.toList with
  | a :: b :: rest => exact ⟨_, _, rfl⟩
  | [a] => rw [hip] at hlen; cases hlen
  | [] => rw [hip] at hlen; cases hlen

theorem ipv6Text_ne_nil (ip : Vector UInt8 16) : ipv6Text ip ≠ [] := by
  obtain ⟨n, ns, hall⟩ := segments_ip ip
  rw [ipv6Text]
  split
  · exact List.append_ne_nil_of_left_ne_nil (by decide) _
  · simp only [hall]
    split
    · exact List.append_ne_nil_of_left_ne_nil
        (List.append_ne_nil_of_right_ne_nil _ (by decide)) _
    · exact intercalate_ne_nil Nat.toDigits_ne_nil

theorem IpAddr.text_ne_nil (ip : IpAddr) : ip.text ≠ [] := by
  cases ip with
  | v4 octets => exact ipv4Text_ne_nil octets
  | v6 octets => exact ipv6Text_ne_nil octets

theorem IpAddr.addrText (ip : IpAddr) : AddrText ip.text := by
  cases ip with
  | v4 octets => exact addrText_ipv4 octets.toList
  | v6 octets => exact addrText_ipv6 octets

/-- What is shown of an IP address survives being written as a host. -/
theorem addrText_rereads {s : List Char} (h : AddrText s) : Rereads s := by
  have hall : addrChars.all (fun c => c ≠ '[' ∧ c ≠ ']' ∧
      isWhitespace c = false) = true := by decide
  have hchars : ∀ c ∈ addrChars, c ≠ '[' ∧ c ≠ ']' ∧ isWhitespace c = false :=
    fun c hc => of_decide_eq_true (List.all_eq_true.mp hall c hc)
  rw [Rereads]
  split
  · exact fun hclose => (hchars ']' (h ']' hclose)).2.1 rfl
  · intro c hc
    have hcs := hchars c (h c (List.mem_of_head? hc))
    exact ⟨hcs.1, hcs.2.2⟩

/-- **AN ADVERTISED ADDRESS IS DIALLED AS ADVERTISED**, whatever the default
    port. -/
theorem address_dials (ip : IpAddr) (port d : UInt16) :
    parseHostPort (formatHostPort ip.text port) d = .ok (ip.text, port) :=
  (reread_iff ip.text_ne_nil).mpr (addrText_rereads ip.addrText)

/-! ## What the loop keeps -/

/-- The services with an address. -/
def usable : Received → Option ServiceInfo
  | .resolved info => if (describe info).isSome then some info else none
  | .other => none
  | .error => none

/-- The last time this service was resolved with an address. -/
def latest (events : List Received) (fullname : List Char) :
    Option ServiceInfo :=
  (events.filterMap usable).reverse.find? (·.fullname = fullname)

theorem latest_append (events : List Received) (e : Received)
    (n : List Char) :
    latest (events ++ [e]) n
      = match usable e with
        | some info => if info.fullname = n then some info else latest events n
        | none => latest events n := by
  rw [latest, List.filterMap_append, List.reverse_append]
  cases he : usable e with
  | none => simp only [List.filterMap_cons, he, List.filterMap_nil,
      List.reverse_nil, List.nil_append, latest]
  | some info =>
      simp only [List.filterMap_cons, he, List.filterMap_nil,
        List.reverse_singleton, List.singleton_append, List.find?_cons, latest]
      by_cases hn : info.fullname = n
      · simp only [hn, decide_true, if_true]
      · simp only [hn, decide_false, if_false]

/-- One turn of the loop. -/
theorem lookup_receive (found : Found) (e : Received) (n : List Char) :
    (receive found e).lookup n
      = match usable e with
        | some info =>
            if info.fullname = n then describe info else found.lookup n
        | none => found.lookup n := by
  cases e with
  | resolved info =>
      cases hd : describe info with
      | none => simp only [receive, usable, hd, Option.isSome_none,
          Bool.false_eq_true, if_false]
      | some server =>
          simp only [receive, usable, hd, Option.isSome_some, if_true]
          by_cases hn : info.fullname = n
          · rw [if_pos hn, ← hn, AList.lookup_insert]
          · rw [if_neg hn, AList.lookup_insert_ne (Ne.symm hn)]
  | other => rfl
  | error => rfl

/-- The whole loop: for each service, the last usable answer. -/
theorem lookup_found (events : List Received) (n : List Char) :
    (events.foldl receive ∅).lookup n = (latest events n).bind describe := by
  induction events using List.reverseRecOn with
  | nil => rfl
  | append_singleton events e ih =>
      rw [List.foldl_append, List.foldl_cons, List.foldl_nil, lookup_receive,
        latest_append, ih]
      cases usable e with
      | none => rfl
      | some info =>
          by_cases hn : info.fullname = n
          · simp only [if_pos hn, Option.bind_some]
          · simp only [if_neg hn]

/-- Services that count have an entry. -/
theorem describe_latest {events : List Received} {n : List Char}
    {info : ServiceInfo} (h : latest events n = some info) :
    Received.resolved info ∈ events ∧ ∃ server, describe info = some server := by
  have hmem := List.mem_of_find?_eq_some h
  rw [List.mem_reverse, List.mem_filterMap] at hmem
  obtain ⟨e, he, husable⟩ := hmem
  cases e with
  | resolved info' =>
      simp only [usable] at husable
      split at husable
      · rename_i hsome
        obtain rfl := Option.some.inj husable
        exact ⟨he, Option.isSome_iff_exists.mp hsome⟩
      · cases husable
  | other => cases husable
  | error => cases husable

theorem latest_isSome_iff {events : List Received} {n : List Char} :
    (latest events n).isSome
      ↔ ((latest events n).bind describe).isSome := by
  cases h : latest events n with
  | none => exact Iff.rfl
  | some info =>
      obtain ⟨-, server, hserver⟩ := describe_latest h
      rw [Option.bind_some, hserver]
      exact Iff.rfl

theorem mem_keys_found {events : List Received} {n : List Char} :
    n ∈ (events.foldl receive ∅).keys ↔ (latest events n).isSome := by
  rw [latest_isSome_iff, ← lookup_found, AList.lookup_isSome]
  exact Iff.rfl

/-- The values of the map, each found under its own name. -/
theorem values_found (found : Found) :
    (found.entries.map Sigma.snd).map some = found.keys.map found.lookup := by
  rw [AList.keys, List.keys, List.map_map, List.map_map]
  refine List.map_congr_left ?_
  intro e he
  exact (AList.mem_lookup_iff.mpr he).symm

theorem sortByName_perm (servers : List DiscoveredServer) :
    (sortByName servers).Perm servers := List.mergeSort_perm _ _

theorem sortByName_pairwise (servers : List DiscoveredServer) :
    (sortByName servers).Pairwise fun a b => a.name ≤ b.name := by
  let le := fun a b : DiscoveredServer => decide (a.name ≤ b.name)
  have htrans : ∀ a b c, le a b → le b c → le a c := by
    intro a b c hab hbc
    exact decide_eq_true (le_trans (of_decide_eq_true hab)
      (of_decide_eq_true hbc))
  have htotal : ∀ a b, le a b || le b a := by
    intro a b
    rw [Bool.or_eq_true, decide_eq_true_eq, decide_eq_true_eq]
    exact le_total a.name b.name
  have hsorted := List.pairwise_mergeSort htrans htotal servers
  exact hsorted.imp of_decide_eq_true

/-- An address of the service, an IPv4 one if it has any. -/
structure Preferred (info : ServiceInfo) (ip : IpAddr) : Prop where
  mem : ip ∈ info.addresses
  v4 : ∀ a, IpAddr.v4 a ∈ info.addresses → ∃ b, ip = .v4 b

theorem preferred_of_address {info : ServiceInfo} {ip : IpAddr}
    (h : info.address = some ip) : Preferred info ip := by
  cases hv4 : info.addressesV4 with
  | nil =>
      rw [ServiceInfo.address, hv4, List.head?_nil, Option.map_none,
        Option.none_or] at h
      refine ⟨List.mem_of_head? h, ?_⟩
      intro a ha
      have hno := (info.mem_v4 a).mpr ha
      rw [hv4] at hno
      cases hno
  | cons a rest =>
      rw [ServiceInfo.address, hv4, List.head?_cons, Option.map_some,
        Option.some_or] at h
      rw [← Option.some.inj h]
      have ha : a ∈ info.addressesV4 := by
        rw [hv4]
        exact List.mem_cons_self ..
      exact ⟨(info.mem_v4 a).mp ha, fun _ _ => ⟨a, rfl⟩⟩

/-- A server as it was advertised, in words that lead back to it. -/
structure Advertised (events : List Received) (s : DiscoveredServer) :
    Prop where
  resolved : ∃ info ip, Received.resolved info ∈ events ∧
    Preferred info ip ∧ s.host = ip.text ∧ s.port = info.port ∧
    s.name = info.name
  dials : ∀ d, parseHostPort s.address d = .ok (s.host, s.port)
  /-- The key of its pin is this very text. -/
  pinned : normalizedAddr s.address = some s.address

theorem advertised_of_describe {events : List Received} {info : ServiceInfo}
    {s : DiscoveredServer} (he : Received.resolved info ∈ events)
    (h : describe info = some s) : Advertised events s := by
  obtain ⟨ip, hip, rfl⟩ := Option.map_eq_some_iff.mp h
  have hdials := fun d => address_dials ip info.port d
  refine ⟨⟨info, ip, he, preferred_of_address hip, rfl, rfl, rfl⟩, hdials, ?_⟩
  simp only [normalizedAddr, hdials]

/-- **WHAT DISCOVERY REPORTS CAN BE DIALLED**: whatever mDNS events arrive,
    there is exactly one server for every service that was ever resolved with
    an address, from its last such answer; they are sorted by name; and each
    is reported with an address, IPv4 where it has one, that
    `Session::connect` takes apart into that host and port again and uses
    unchanged as the key of its pin.  `--discover` takes one that no other
    comes before. -/
theorem discovery_reports
    (order : List DiscoveredServer → List DiscoveredServer)
    (events : List Received) (horder : ∀ l, (order l).Perm l) :
    (discoverServers order events).Pairwise (fun a b => a.name ≤ b.name) ∧
      (∃ fullnames : List (List Char), fullnames.Nodup ∧
        (∀ n, n ∈ fullnames ↔ (latest events n).isSome) ∧
        ((discoverServers order events).map some).Perm
          (fullnames.map fun n => (latest events n).bind describe)) ∧
      (∀ s ∈ discoverServers order events, Advertised events s) ∧
      ∀ addr, discoveredAddr (discoverServers order events) = some addr →
        ∃ s ∈ discoverServers order events, s.address = addr ∧
          ∀ s' ∈ discoverServers order events, s.name ≤ s'.name := by
  have hperm : (discoverServers order events).Perm
      ((events.foldl receive ∅).entries.map Sigma.snd) :=
    (sortByName_perm _).trans (horder _)
  have hvalues : ((discoverServers order events).map some).Perm
      ((events.foldl receive ∅).keys.map
        fun n => (latest events n).bind describe) := by
    have hlookup : (events.foldl receive ∅).lookup
        = fun n => (latest events n).bind describe :=
      funext (lookup_found events)
    rw [← hlookup, ← values_found]
    exact hperm.map some
  have hsorted : (discoverServers order events).Pairwise
      (fun a b => a.name ≤ b.name) := sortByName_pairwise _
  refine ⟨hsorted, ⟨_, AList.keys_nodup _, fun _ => mem_keys_found, hvalues⟩,
    ?_, ?_⟩
  · intro s hs
    obtain ⟨n, -, hn⟩ := List.mem_map.mp
      (hvalues.mem_iff.mp (List.mem_map_of_mem hs))
    obtain ⟨info, hinfo, hdescribe⟩ := Option.bind_eq_some_iff.mp hn
    exact advertised_of_describe (describe_latest hinfo).1 hdescribe
  · intro addr haddr
    obtain ⟨s, hs, rfl⟩ := Option.map_eq_some_iff.mp haddr
    refine ⟨s, List.mem_of_head? hs, rfl, ?_⟩
    obtain ⟨rest, hrest⟩ := List.head?_eq_some_iff.mp hs
    intro s' hs'
    rw [hrest] at hsorted hs'
    rcases List.mem_cons.mp hs' with rfl | hs'
    · exact le_refl _
    · exact (List.pairwise_cons.mp hsorted).1 s' hs'

/-- A desk with both kinds of address, answering twice. -/
def desk (port : UInt16) : ServiceInfo where
  fullname := "desk._kvm-rs._tcp.local.".toList
  hostname := "desk.local.".toList
  port := port
  addresses := [.v6 #v[0xfe, 0x80, 0, 0, 0, 0, 0, 0, 0, 0, 0, 0, 0, 0, 0, 1],
    .v4 #v[10, 0, 0, 5]]
  addressesV4 := [#v[10, 0, 0, 5]]
  mem_v4 := by
    intro a
    simp

theorem discovery_reports_desk :
    Advertised [.resolved (desk 4000), .other, .resolved (desk 4100)]
      ⟨"desk.local".toList, "10.0.0.5".toList, 4100, "10.0.0.5:4100".toList⟩ :=
  (discovery_reports id [.resolved (desk 4000), .other, .resolved (desk 4100)]
    fun _ => List.Perm.refl _).2.2.1 _ (by decide +kernel)

end KvmDiscovery
