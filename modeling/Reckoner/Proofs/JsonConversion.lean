import Reckoner.Proofs.BuiltFormatter
import Reckoner.Proofs.ExactArithmetic
import Reckoner.Proofs.NamedThings
import Reckoner.Value.Json
import Reckoner.Value.Order

namespace Reckoner

/-- A list is made if each of its items is. -/
theorem mapM_eq_ok_iff {ε α β : Type} {make : α → Except ε β} {xs : List α} {ys : List β} :
    xs.mapM make = .ok ys ↔ xs.map make = ys.map .ok := by
  induction xs generalizing ys with
  | nil =>
    rw [List.mapM_nil, List.map_nil, List.nil_eq, List.map_eq_nil_iff]
    exact ⟨fun h => (Except.ok.inj h).symm, fun h => congrArg Except.ok h.symm⟩
  | cons x rest ih =>
    simp only [List.mapM_cons, bind_eq_ok, ih, pure, Except.pure, Except.ok.injEq, List.map_cons]
    constructor
    · rintro ⟨y, hy, more, hmore, rfl⟩
      rw [hy, hmore, List.map_cons]
    · intro h
      cases ys with
      | nil => cases h
      | cons y more =>
        obtain ⟨hy, hmore⟩ := List.cons.inj h
        exact ⟨y, hy, more, hmore, rfl⟩

namespace Named

variable {ε α : Type} {names : List String} {make : ∀ name, name ∈ names → Except ε α}

theorem collect_of_ok (distinct : names.Nodup) {thing : ∀ name, name ∈ names → α}
    (h : ∀ name hmem, make name hmem = .ok (thing name hmem)) :
    collect names make = .ok ⟨names, distinct, thing⟩ := by
  let entries := names.attach.map fun name => (name.1, thing name.1 name.2)
  have hentries : (names.attach.mapM fun name => do return (name.1, ← make name.1 name.2)) =
      .ok entries := by
    rw [mapM_eq_ok_iff, List.map_map]
    refine List.map_congr_left fun name _ => ?_
    rw [h name.1 name.2]
    rfl
  have hkeys : entries.map Prod.fst = names := by
    rw [List.map_map]
    exact List.attach_map_subtype_val names
  have hnames := names_ofList (hkeys ▸ distinct)
  rw [hkeys] at hnames
  rw [collect, hentries]
  refine congrArg Except.ok (eq_of_lookup hnames fun name => ?_)
  by_cases hmem : name ∈ names
  · have hthing : lookup ⟨names, distinct, thing⟩ name = some (thing name hmem) := dif_pos hmem
    rw [hthing]
    exact lookup_ofList_of_mem (hkeys ▸ distinct)
      (List.mem_map.mpr ⟨⟨name, hmem⟩, List.mem_attach _ _, rfl⟩)
  · rw [lookup, lookup, dif_neg (hnames ▸ hmem), dif_neg hmem]

/-- Things are made for names just if each of them is. -/
theorem collect_eq_ok_iff (distinct : names.Nodup) {named : Named α} :
    collect names make = .ok named ↔
      named.names = names ∧ ∀ name h h', make name h = .ok (named.thing name h') := by
  constructor
  · intro h
    have hall : ∀ name hmem, ∃ thing, make name hmem = .ok thing := by
      obtain ⟨entries, hentries, -⟩ := bind_eq_ok.mp h
      intro name hmem
      have hmade : (do return (name, ← make name hmem) : Except ε (String × α)) ∈
          entries.map .ok := by
        rw [← mapM_eq_ok_iff.mp hentries]
        exact List.mem_map.mpr ⟨⟨name, hmem⟩, List.mem_attach _ _, rfl⟩
      obtain ⟨entry, -, hentry⟩ := List.mem_map.mp hmade
      obtain ⟨thing, hthing, -⟩ := bind_eq_ok.mp hentry.symm
      exact ⟨thing, hthing⟩
    choose thing hthing using hall
    rw [collect_of_ok distinct hthing] at h
    obtain rfl := Except.ok.inj h
    exact ⟨rfl, fun name hmem _ => hthing name hmem⟩
  · rintro ⟨rfl, h⟩
    exact collect_of_ok named.distinct fun name hmem => h name hmem hmem

end Named

namespace JsonNumber

/-- The whole number that a number is kept as. -/
def integer? : JsonNumber → Option ℤ
  | natural n => some n.toNat
  | negative n _ => some n.toInt
  | double _ _ => none

/-- Whole numbers are longs where a long is the number. Other numbers are the nearest doubles. -/
inductive Denotes : JsonNumber → Value → Prop
  | long {n : JsonNumber} {m : Int64} (hwhole : n.integer? = some m.toInt) : Denotes n (.long m)
  | large {n : JsonNumber} {k : ℤ} {x : Double} (hwhole : n.integer? = some k)
      (hlarge : ¬FitsWord 64 k) (hnearest : x.IsNearest k) : Denotes n (.double x)
  | double {x : Double} (finite : x.isFinite) : Denotes (.double x finite) (.double x)

variable {n : JsonNumber} {m : Int64} {v w : Value}

theorem long?_eq_some_iff : n.long? = some m ↔ n.integer? = some m.toInt := by
  cases n with
  | natural n =>
    rw [long?, int64?_eq_some_iff, integer?, Option.some.injEq]
    exact eq_comm
  | negative n below => rw [long?, integer?, Option.some.injEq, Option.some.injEq, Int64.toInt_inj]
  | double x finite => simp [long?, integer?]

theorem long?_ofLong (n : Int64) : (ofLong n).long? = some n := by
  rw [long?_eq_some_iff, ofLong]
  split
  · rfl
  · rename_i hbelow
    have hle : 0 ≤ n := Int64.not_lt.mp hbelow
    have hle' : 0 ≤ n.toInt := Int64.le_iff_toInt_le.mp hle
    rw [integer?, Int64.toNat_toUInt64_of_le hle, ← Int64.toNat_toInt, Int.toNat_of_nonneg hle']

theorem Denotes.unique (hv : n.Denotes v) (hw : n.Denotes w) : v = w := by
  cases hv with
  | long hm =>
    cases hw with
    | long hm' => rw [Int64.toInt_inj.mp (Option.some.inj (hm.symm.trans hm'))]
    | large hk hlarge =>
      obtain rfl := Option.some.inj (hm.symm.trans hk)
      exact absurd (fitsWord_toInt _) hlarge
    | double finite => cases hm
  | large hk hlarge hx =>
    cases hw with
    | long hm =>
      obtain rfl := Option.some.inj (hm.symm.trans hk)
      exact absurd (fitsWord_toInt _) hlarge
    | large hk' _ hx' =>
      obtain rfl := Option.some.inj (hk.symm.trans hk')
      rw [hx.unique hx']
    | double finite => cases hk
  | double finite =>
    cases hw with
    | long hm => cases hm
    | large hk => cases hk
    | double _ => rfl

end JsonNumber

namespace Json

/-- A value is the tree that a JSON value is, with its numbers, texts and keys. -/
inductive Denotes : Json → Value → Prop
  | number {n : JsonNumber} {v : Value} (h : n.Denotes v) : Denotes (.number n) v
  | string (text : String) : Denotes (.string text) (.string text)
  | array {items : List Json} {values : List Value} (h : List.Forall₂ Denotes items values) :
      Denotes (.array items) (.collection values)
  | object {members : Named Json} {entries : Named Value} (hkeys : entries.names = members.names)
      (h : ∀ key hmember hentry,
        Denotes (members.thing key hmember) (entries.thing key hentry)) :
      Denotes (.object members) (.map entries)

mutual

/-- A value and all that it holds at any depth, in the order of reading. -/
def nodes : Json → List Json
  | array items => array items :: itemNodes items
  | object ⟨keys, distinct, item⟩ =>
    object ⟨keys, distinct, item⟩ :: keys.attach.flatMap fun ⟨key, h⟩ => (item key h).nodes
  | j => [j]

def itemNodes : List Json → List Json
  | [] => []
  | item :: rest => item.nodes ++ itemNodes rest

end

/-- What is no value by itself. -/
def refusal? : Json → Option Actual
  | null => some .jsonNull
  | boolean b => some (.jsonBoolean b)
  | _ => none

theorem findSome?_refusal?_eq_none_iff {nodes : List Json} :
    nodes.findSome? refusal? = none ↔ .null ∉ nodes ∧ ∀ b, .boolean b ∉ nodes := by
  rw [List.findSome?_eq_none_iff]
  constructor
  · intro h
    refine ⟨?_, ?_⟩
    · intro hnull
      cases h _ hnull
    · intro b hb
      cases h _ hb
  · rintro ⟨hnull, hboolean⟩ node hnode
    cases node with
    | null => exact absurd hnode hnull
    | boolean b => exact absurd hnode (hboolean b)
    | _ => rfl

/-- The first of some nodes that is refused is the error of a conversion, which gives a result if there
is none. -/
def Converts {α : Type} (nodes : List Json) (result : Except EvalError α) : Prop :=
  match nodes.findSome? refusal? with
  | some actual => result = .error (.notConvertible actual)
  | none => ∃ x, result = .ok x

variable {α β : Type} {first : Except EvalError α} {next : α → Except EvalError β}
  {left right : List Json}

theorem Converts.ok (x : α) : Converts [] (.ok x) :=
  ⟨x, rfl⟩

theorem Converts.bind (hfirst : Converts left first) (hnext : ∀ x, Converts right (next x)) :
    Converts (left ++ right) (first >>= next) := by
  unfold Converts at *
  rw [List.findSome?_append]
  cases hleft : left.findSome? refusal? with
  | some actual =>
    rw [hleft] at hfirst
    rw [Option.some_or]
    dsimp only at hfirst ⊢
    rw [hfirst]
    rfl
  | none =>
    rw [hleft] at hfirst
    obtain ⟨x, rfl⟩ := hfirst
    exact hnext x

theorem Converts.map (f : α → β) (h : Converts right first) :
    Converts right (first >>= fun x => .ok (f x)) := by
  have hbind := h.bind fun x => Converts.ok (f x)
  rwa [List.append_nil] at hbind

theorem Converts.mapM {xs : List α} {nodes : α → List Json} {make : α → Except EvalError β}
    (h : ∀ x, Converts (nodes x) (make x)) : Converts (xs.flatMap nodes) (xs.mapM make) := by
  induction xs with
  | nil => exact Converts.ok []
  | cons x rest ih =>
    rw [List.flatMap_cons, List.mapM_cons]
    exact (h x).bind fun y => ih.map (y :: ·)

theorem Converts.collect {names : List String} {nodes : ∀ name, name ∈ names → List Json}
    {make : ∀ name, name ∈ names → Except EvalError α}
    (h : ∀ name hmem, Converts (nodes name hmem) (make name hmem)) :
    Converts (names.attach.flatMap fun ⟨name, hmem⟩ => nodes name hmem)
      (Named.collect names make) :=
  (Converts.mapM fun ⟨name, hmem⟩ => (h name hmem).map (name, ·)).map Named.ofList

/-- What is not refused by itself fails where a part of it fails. -/
theorem Converts.cons {node : Json} (hnode : node.refusal? = none) (h : Converts right first) :
    Converts (node :: right) first := by
  unfold Converts at *
  rwa [List.findSome?_cons, hnode]

theorem Converts.exists_ok_iff (h : Converts right first) :
    (∃ x, first = .ok x) ↔ right.findSome? refusal? = none := by
  unfold Converts at h
  split at h
  · rename_i actual hactual
    simp [h, hactual]
  · rename_i hnone
    simp [h, hnone]

theorem Converts.eq_error_iff {error : EvalError} (h : Converts right first) :
    first = .error error ↔
      ∃ actual, right.findSome? refusal? = some actual ∧ error = .notConvertible actual := by
  unfold Converts at h
  split at h
  · rename_i actual hactual
    simp [h, hactual, eq_comm]
  · rename_i hnone
    obtain ⟨x, rfl⟩ := h
    simp [hnone]

end Json

namespace Value

open Json (Converts)

theorem ofJson_number (n : JsonNumber) : ∃ v, ofJson (.number n) = .ok v ∧ n.Denotes v := by
  cases n with
  | natural n =>
    cases hlong : int64? n.toNat with
    | some m =>
      refine ⟨.long m, ?_, .long ?_⟩
      · simp only [ofJson, JsonNumber.long?, hlong]
      · rw [JsonNumber.integer?, int64?_eq_some_iff.mp hlong]
    | none =>
      refine ⟨.double (Binary.ofInt n.toNat), ?_, ?_⟩
      · simp only [ofJson, JsonNumber.long?, JsonNumber.double?, hlong]
      · exact .large rfl (int64?_eq_none_iff.mp hlong) (Binary.ofInt_isNearest _)
  | negative n below => exact ⟨.long n, rfl, .long rfl⟩
  | double x finite => exact ⟨.double x, rfl, .double finite⟩

theorem ofJson_number_eq_ok_iff {n : JsonNumber} {v : Value} :
    ofJson (.number n) = .ok v ↔ n.Denotes v := by
  obtain ⟨w, hw, hdenotes⟩ := ofJson_number n
  rw [hw, Except.ok.injEq]
  constructor
  · rintro rfl
    exact hdenotes
  · exact hdenotes.unique

mutual

theorem ofJson_eq_ok_iff : ∀ (j : Json) (v : Value), ofJson j = .ok v ↔ j.Denotes v
  | .null, v => by
    constructor
    · intro h
      cases h
    · intro h
      cases h
  | .boolean b, v => by
    constructor
    · intro h
      cases h
    · intro h
      cases h
  | .number n, v => by
    rw [ofJson_number_eq_ok_iff]
    constructor
    · exact .number
    · intro h
      cases h with
      | number h => exact h
  | .string text, v => by
    constructor
    · intro h
      cases h
      exact .string text
    · intro h
      cases h
      rfl
  | .array items, v => by
    rw [ofJson, bind_eq_ok]
    constructor
    · rintro ⟨values, hvalues, h⟩
      cases h
      exact .array ((ofJsonItems_eq_ok_iff items values).mp hvalues)
    · intro h
      cases h with
      | array hvalues => exact ⟨_, (ofJsonItems_eq_ok_iff items _).mpr hvalues, rfl⟩
  | .object ⟨keys, distinct, item⟩, v => by
    rw [ofJson, bind_eq_ok]
    constructor
    · rintro ⟨entries, hentries, h⟩
      cases h
      obtain ⟨hkeys, hvalues⟩ := (Named.collect_eq_ok_iff distinct).mp hentries
      exact .object hkeys fun key hmember hentry =>
        (ofJson_eq_ok_iff (item key hmember) _).mp (hvalues key hmember hentry)
    · intro h
      cases h with
      | object hkeys hvalues =>
        refine ⟨_, (Named.collect_eq_ok_iff distinct).mpr ⟨hkeys, fun key hmember hentry => ?_⟩, rfl⟩
        exact (ofJson_eq_ok_iff (item key hmember) _).mpr (hvalues key hmember hentry)

theorem ofJsonItems_eq_ok_iff : ∀ (items : List Json) (values : List Value),
    ofJsonItems items = .ok values ↔ List.Forall₂ Json.Denotes items values
  | [], values => by
    rw [ofJsonItems, Except.ok.injEq, List.forall₂_nil_left_iff]
    exact eq_comm
  | item :: rest, values => by
    rw [ofJsonItems, bind_eq_ok, List.forall₂_cons_left_iff]
    simp only [bind_eq_ok, ofJson_eq_ok_iff item, ofJsonItems_eq_ok_iff rest, pure, Except.pure,
      Except.ok.injEq]
    constructor
    · rintro ⟨v, hv, more, hmore, rfl⟩
      exact ⟨v, more, hv, hmore, rfl⟩
    · rintro ⟨v, more, hv, hmore, rfl⟩
      exact ⟨v, hv, more, hmore, rfl⟩

end

mutual

theorem ofJson_converts : ∀ j : Json, Converts j.nodes (ofJson j)
  | .null => rfl
  | .boolean b => rfl
  | .number n => by
    obtain ⟨v, hv, -⟩ := ofJson_number n
    exact ⟨v, hv⟩
  | .string text => ⟨.string text, rfl⟩
  | .array items => ((ofJsonItems_converts items).map collection).cons rfl
  | .object ⟨_, _, item⟩ =>
    ((Converts.collect fun key h => ofJson_converts (item key h)).map map).cons rfl

theorem ofJsonItems_converts : ∀ items : List Json,
    Converts (Json.itemNodes items) (ofJsonItems items)
  | [] => Converts.ok []
  | item :: rest => by
    apply (ofJson_converts item).bind
    intro v
    exact (ofJsonItems_converts rest).map (v :: ·)

end

/-- Integers, texts, and what is built of them. -/
inductive IsDiscrete : Value → Prop
  | whole {v : Value} {n : Int64} (h : v.whole? = some n) : IsDiscrete v
  | string (text : String) : IsDiscrete (.string text)
  | collection {items : List Value} (h : ∀ item ∈ items, IsDiscrete item) :
      IsDiscrete (.collection items)
  | map {entries : Named Value} (h : ∀ key hkey, IsDiscrete (entries.thing key hkey)) :
      IsDiscrete (.map entries)

mutual

/-- The value with its integers as longs. -/
def widened : Value → Value
  | byte n => long n.toInt64
  | short n => long n.toInt64
  | integer n => long n.toInt64
  | collection items => collection (widenedItems items)
  | map ⟨keys, distinct, item⟩ => map ⟨keys, distinct, fun key h => (item key h).widened⟩
  | v => v

def widenedItems : List Value → List Value
  | [] => []
  | item :: rest => item.widened :: widenedItems rest

end

/-- What a value is converted to comes back as the value with wider integers. -/
def ComesBack (v : Value) : Prop :=
  ∃ w, ofJson v.toJson.sorted = .ok w ∧ w.same v.widened

variable {v : Value} {items : List Value}

theorem whole_comesBack {n : Int64} (h : v.whole? = some n) : v.ComesBack := by
  have hread : ofJson (.number (.ofLong n)) = .ok (.long n) :=
    ofJson_number_eq_ok_iff.mpr
      (.long (JsonNumber.long?_eq_some_iff.mp (JsonNumber.long?_ofLong n)))
  have hsame : (long n).same (long n) := by rw [same, beq_self_eq_true]
  refine ⟨.long n, ?_⟩
  cases v with
  | byte _ | short _ | integer _ | long _ =>
    obtain rfl := Option.some.inj h
    exact ⟨hread, hsame⟩
  | _ => cases h

theorem items_comeBack (h : ∀ item ∈ items, item.ComesBack) :
    ∃ values, ofJsonItems (Json.sortedItems (toJsonItems items)) = .ok values ∧
      sameItems values (widenedItems items) := by
  induction items with
  | nil => exact ⟨[], rfl, rfl⟩
  | cons item rest ih =>
    obtain ⟨w, hread, hsame⟩ := h item List.mem_cons_self
    obtain ⟨values, hvalues, hrest⟩ := ih fun item hitem => h item (List.mem_cons_of_mem _ hitem)
    refine ⟨w :: values, ?_, ?_⟩
    · rw [toJsonItems, Json.sortedItems, ofJsonItems, hread, hvalues]
      rfl
    · rw [widenedItems, sameItems, hsame, hrest, Bool.and_true]

/-- The members come back in the order of their keys, each of them where its key is. -/
theorem map_comesBack {entries : Named Value} (h : ∀ key hkey, (entries.thing key hkey).ComesBack) :
    (map entries).ComesBack := by
  obtain ⟨keys, distinct, item⟩ := entries
  choose back hread hsame using h
  have hmem {key : String} (h : key ∈ keys.mergeSort) : key ∈ keys := List.mem_mergeSort.mp h
  refine ⟨map (Named.mk keys distinct back).sorted, ?_, ?_⟩
  · rw [toJson, Json.sorted, Named.sorted, ofJson,
      Named.collect_of_ok _ fun key h => hread key (hmem h)]
    rfl
  · rw [widened, Named.sorted, same, List.length_mergeSort, beq_self_eq_true, Bool.true_and,
      List.all_eq_true]
    rintro ⟨key, h⟩ -
    have hlookup : Named.lookup ⟨keys, distinct, fun key h => (item key h).widened⟩ key =
        some (item key (hmem h)).widened := dif_pos (hmem h)
    dsimp only
    rw [hlookup]
    exact hsame key (hmem h)

theorem IsDiscrete.comesBack (h : v.IsDiscrete) : v.ComesBack := by
  induction h with
  | whole h => exact whole_comesBack h
  | string text => exact ⟨.string text, rfl, beq_self_eq_true text⟩
  | collection h ih =>
    obtain ⟨values, hread, hsame⟩ := items_comeBack ih
    refine ⟨.collection values, ?_, ?_⟩
    · rw [toJson, Json.sorted, ofJson, hread]
      rfl
    · rw [widened, same, hsame]
  | map h ih => exact map_comesBack ih

/-- JSON values without `null` and booleans are converted to the same tree, the others fail with what
is read first of them. Integers, texts and what is built of them come back, with the integers as
longs. -/
theorem json_conversion :
    (∀ j : Json,
      ((∃ v, ofJson j = .ok v) ↔ .null ∉ j.nodes ∧ ∀ b, .boolean b ∉ j.nodes) ∧
      (∀ v, ofJson j = .ok v ↔ j.Denotes v) ∧
      ∀ error, ofJson j = .error error ↔ ∃ actual,
        j.nodes.findSome? Json.refusal? = some actual ∧
          error = .invalidArgumentType "json" 0 .jsonValue actual) ∧
    ∀ v : Value, v.IsDiscrete → ∃ w, ofJson v.toJson.sorted = .ok w ∧ w.same v.widened := by
  refine ⟨?_, fun v h => h.comesBack⟩
  intro j
  have hconverts := ofJson_converts j
  refine ⟨?_, ofJson_eq_ok_iff j, ?_⟩
  · rw [← Json.findSome?_refusal?_eq_none_iff]
    exact hconverts.exists_ok_iff
  · intro error
    exact hconverts.eq_error_iff

/-- The boolean is read before the `null`, and the entries of the map change their places. -/
theorem json_conversion_nested :
    ofJson (.array [.string "x", .object (.ofList [("k", .boolean true)]), .null]) =
        .error (.invalidArgumentType "json" 0 .jsonValue (.jsonBoolean true)) ∧
      ∃ w, ofJson
          (map (.ofList [("b", collection [byte 1, integer 2]), ("a", string "x")])).toJson.sorted =
            .ok w ∧
        w.same (map (.ofList [("b", collection [long 1, long 2]), ("a", string "x")])) := by
  have hitems : ∀ item ∈ [byte 1, integer 2], item.IsDiscrete :=
    List.forall_mem_cons.mpr ⟨.whole rfl, List.forall_mem_singleton.mpr (.whole rfl)⟩
  have hentries : ∀ entry ∈ [("b", collection [byte 1, integer 2]), ("a", string "x")],
      entry.2.IsDiscrete :=
    List.forall_mem_cons.mpr ⟨.collection hitems, List.forall_mem_singleton.mpr (.string "x")⟩
  have hwide : (map (.ofList [("b", collection [byte 1, integer 2]), ("a", string "x")])).widened =
      map (.ofList [("b", collection [long 1, long 2]), ("a", string "x")]) := by
    refine congrArg map (Named.eq_of_lookup rfl fun key => ?_)
    by_cases hkey : key ∈ ["b", "a"]
    · rcases List.mem_pair.mp hkey with rfl | rfl <;> rfl
    · have hnone {named : Named Value} (h : named.names = ["b", "a"]) : named.lookup key = none :=
        dif_neg (h ▸ hkey)
      rw [hnone rfl, hnone rfl]
  obtain ⟨hread, hback⟩ := json_conversion
  obtain ⟨-, -, herror⟩ :=
    hread (.array [.string "x", .object (.ofList [("k", .boolean true)]), .null])
  refine ⟨(herror _).mpr ⟨_, rfl, rfl⟩, ?_⟩
  rw [← hwide]
  exact hback _ (.map (Named.forall_thing_ofList hentries))

end Value

end Reckoner
