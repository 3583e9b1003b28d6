import FipsIpc.IpHashtable.Refinement

/-!
Contract: histories of the hash table that mix IPv4 and IPv6.

Owns: the projection of a history to one family, that the map serves a family
as if it were alone, and that the table does so as long as no lookup runs into
an entry of the other family.

An IPv4 lookup compares four bytes of an entry and never its domain, so it can
find an entry of an IPv6 address that starts with these bytes and falls into
the same bin; an IPv6 lookup can find an IPv4 entry with the right bytes left
behind its key.

Does not own: histories of one family.
-/

set_option autoImplicit false

namespace FipsIpc.IpHashtable

open FipsIpc.Lib

/-- The requests of a family. -/
def ofFamily (domain : Int) (requests : List Request) : List Request :=
  requests.filter fun request => request.address.domain = domain

/-- The results of the requests of a family. -/
def resultsOf (domain : Int) (requests : List Request) (results : List Int) : List Int :=
  ((requests.zip results).filter fun served => served.1.address.domain = domain).map Prod.snd

theorem resultsOf_cons (domain : Int) (request : Request) (rest : List Request) (result : Int)
    (results : List Int) :
    resultsOf domain (request :: rest) (result :: results) =
      if request.address.domain = domain then result :: resultsOf domain rest results
      else resultsOf domain rest results := by
  unfold resultsOf
  rw [List.zip_cons_cons, List.filter_cons]
  by_cases same : request.address.domain = domain
  · simp [same]
  · simp [same]

theorem ofFamily_cons (domain : Int) (request : Request) (rest : List Request) :
    ofFamily domain (request :: rest) =
      if request.address.domain = domain then request :: ofFamily domain rest
      else ofFamily domain rest := by
  unfold ofFamily
  rw [List.filter_cons]
  simp only [decide_eq_true_eq]

namespace AddressMap

/-- The maps have the same counters for a family. -/
def AgreeOn (domain : Int) (left right : AddressMap) : Prop :=
  ∀ address, address.domain = domain → left address = right address

/-- A request looks at the counter of its address only. -/
theorem serve_congr (searchTime : Int) {left right : AddressMap} (request : Request)
    (same : left request.address = right request.address) :
    (left.serve searchTime request).1 = (right.serve searchTime request).1 ∧
      (left.serve searchTime request).2 request.address =
        (right.serve searchTime request).2 request.address := by
  cases request with
  | insert address accessTime =>
      have equal : left address = right address := same
      simp only [serve, equal, Request.address]
      cases found : right address with
      | none => simp
      | some counter =>
          dsimp only
          split <;> simp
  | remove address =>
      have equal : left address = right address := same
      simp only [serve, equal, Request.address]
      cases found : right address with
      | none => simp [equal, found]
      | some counter => simp
  | set address value accessTime =>
      have equal : left address = right address := same
      simp only [serve, equal, Request.address]
      cases found : right address with
      | none => simp [equal, found]
      | some counter => simp

theorem AgreeOn.serve {domain searchTime : Int} {left right : AddressMap}
    (agree : left.AgreeOn domain right) {request : Request}
    (same : request.address.domain = domain) :
    (left.serve searchTime request).2.AgreeOn domain (right.serve searchTime request).2 := by
  intro address family
  by_cases equal : address = request.address
  · rw [equal]
    exact (serve_congr searchTime request (agree _ same)).2
  · rw [left.serve_of_ne searchTime request equal, right.serve_of_ne searchTime request equal]
    exact agree address family

/-- The requests of the other family leave the counters alone. -/
theorem AgreeOn.serve_other {domain : Int} (searchTime : Int) {left right : AddressMap}
    (agree : left.AgreeOn domain right) {request : Request}
    (other : request.address.domain ≠ domain) :
    (left.serve searchTime request).2.AgreeOn domain right := by
  intro address family
  have different : address ≠ request.address := by
    intro equal
    subst equal
    exact other family
  rw [left.serve_of_ne searchTime request different]
  exact agree address family

/-- The map serves a family as if it were alone. -/
theorem AgreeOn.run {domain searchTime : Int} {left right : AddressMap}
    (agree : left.AgreeOn domain right) (requests : List Request) :
    resultsOf domain requests (left.run searchTime requests).1 =
      (right.run searchTime (ofFamily domain requests)).1 := by
  induction requests generalizing left right with
  | nil => rfl
  | cons request rest inductionHypothesis =>
      have unfolded : (left.run searchTime (request :: rest)).1 =
          (left.serve searchTime request).1 ::
            ((left.serve searchTime request).2.run searchTime rest).1 := rfl
      rw [unfolded, resultsOf_cons, ofFamily_cons]
      by_cases same : request.address.domain = domain
      · rw [if_pos same, if_pos same, inductionHypothesis (agree.serve same),
          (serve_congr searchTime request (agree _ same)).1]
        rfl
      · rw [if_neg same, if_neg same]
        exact inductionHypothesis (agree.serve_other searchTime same)

end AddressMap

/-- Over every history in which no lookup finds an entry of the other family,
the requests of a family have the results they have alone. -/
theorem families_independent (memory : Nat → Entry) (searchTime : Int) {requests : List Request}
    {last : Table}
    (history : (Table.ipHashtableInit memory searchTime).OwnFamilyRun requests last)
    (domain : Int) :
    ∃ mixed alone aloneLast,
      (Table.ipHashtableInit memory searchTime).run requests = some (mixed, last) ∧
      (Table.ipHashtableInit memory searchTime).run (ofFamily domain requests) =
        some (alone, aloneLast) ∧
      resultsOf domain requests mixed = alone := by
  have represents := Represents.init memory searchTime
  have nothing : AddressMap.empty.InFamily domain := fun _ present => absurd rfl present
  have family : ∀ request ∈ ofFamily domain requests, request.address.domain = domain := by
    intro request member
    simpa using (List.mem_filter.mp member).2
  obtain ⟨aloneLast, aloneHistory⟩ := represents.exists_ownFamilyRun nothing family
  have agree : AddressMap.empty.AgreeOn domain AddressMap.empty := fun _ _ => rfl
  exact ⟨_, _, aloneLast, (represents.run history).1, (represents.run aloneHistory).1,
    agree.run requests⟩

/-- An IPv6 client and an IPv4 client in different bins. -/
def apartClients : List Request :=
  [.insert (.v6 0x01200120) 0, .insert (.v4 0x0101A8C0) 0, .insert (.v6 0x01200120) 1]

theorem families_independent_apart :
    ∃ mixed alone last aloneLast,
      (Table.ipHashtableInit (fun _ => .zero) 60).run apartClients = some (mixed, last) ∧
      (Table.ipHashtableInit (fun _ => .zero) 60).run (ofFamily afInet6 apartClients) =
        some (alone, aloneLast) ∧
      resultsOf afInet6 apartClients mixed = alone := by
  have history : ∃ last,
      (Table.ipHashtableInit (fun _ => .zero) 60).OwnFamilyRun apartClients last := by
    rw [Table.ipHashtableInit_eq]
    exact ⟨_, Run.of_exec (Option.some_get (by decide +kernel)).symm⟩
  obtain ⟨last, history⟩ := history
  obtain ⟨mixed, alone, aloneLast, results, aloneResults, same⟩ :=
    families_independent (fun _ => .zero) 60 history afInet6
  exact ⟨mixed, alone, last, aloneLast, results, aloneResults, same⟩

/-- The IPv6 address 2001:2001:: starts with the bytes of 32.1.32.1 and falls
into its bin. -/
def sameBytes : List Request :=
  [.insert (.v6 0x01200120) 0, .insert (.v4 0x01200120) 0, .remove (.v4 0x01200120),
    .remove (.v6 0x01200120)]

/-- The first IPv4 message counts as the second, and removing the IPv4 client
deletes the counter of the IPv6 client. -/
theorem families_interfere_sameBytes :
    ((Table.ipHashtableInit (fun _ => .zero) 60).run sameBytes).map Prod.fst =
      some [1, 2, 2, ipHtableNoexist] ∧
    ((Table.ipHashtableInit (fun _ => .zero) 60).run (ofFamily afInet sameBytes)).map Prod.fst =
      some [1, 1] ∧
    ((Table.ipHashtableInit (fun _ => .zero) 60).run (ofFamily afInet6 sameBytes)).map Prod.fst =
      some [1, 1] ∧
    resultsOf afInet sameBytes [1, 2, 2, ipHtableNoexist] ≠ [1, 1] ∧
    resultsOf afInet6 sameBytes [1, 2, 2, ipHtableNoexist] ≠ [1, 1] := by
  rw [Table.ipHashtableInit_eq]
  refine ⟨by decide +kernel, by decide +kernel, by decide +kernel, by decide, by decide⟩

end FipsIpc.IpHashtable
