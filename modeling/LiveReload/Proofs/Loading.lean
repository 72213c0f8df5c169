import LiveReload.Config.Json
import LiveReload.FileEvent.Json
import LiveReload.Proofs.Json.Schema
import LiveReload.Proofs.Message.Arrangement
import LiveReload.Resource.Json

namespace LiveReload

open Json (Indifferent IsTextOf Means Prints Quoted Rearranged Tree parses_bool parses_choice
  parses_string parses_word64 printList printObject printText printsMember_text prints_list
  prints_object prints_text timesNamed)
open Message (UpdatesRearranged)

namespace Declaration

theorem parses_fields : ∀ field ∈ schema.fields, ∃ means, Json.Parses field.reader means := by
  intro field hm
  simp only [schema, List.mem_cons, List.not_mem_nil, or_false] at hm
  rcases hm with rfl | rfl | rfl | rfl | rfl
  · exact ⟨_, parses_string.optional.map _⟩
  · exact ⟨_, parses_string.listOf.optional.map _⟩
  · exact ⟨_, parses_bool.optional.map _⟩
  · exact ⟨_, parses_bool.optional.map _⟩
  · exact ⟨_, parses_string.listOf.optional.map _⟩

theorem independent : schema.Independent := by
  intro one hone other hother hne tree tree' update update' hmeans hmeans' state
  simp only [schema, List.mem_cons, List.not_mem_nil, or_false] at hone hother
  rcases hone with rfl | rfl | rfl | rfl | rfl <;> obtain ⟨_, rfl⟩ := hmeans.exists_of_map <;>
    rcases hother with rfl | rfl | rfl | rfl | rfl <;>
      first
      | exact absurd rfl hne
      | (obtain ⟨_, rfl⟩ := hmeans'.exists_of_map; rfl)

theorem indifferent :
    Indifferent ofJson (fun _ => schema.Declares) (fun _ => True) fun _ _ => False :=
  schema.indifferent parses_fields independent

end Declaration

namespace Config

theorem parses_fields : ∀ field ∈ schema.fields, ∃ means, Json.Parses field.reader means := by
  intro field hm
  simp only [schema, List.mem_cons, List.not_mem_nil, or_false] at hm
  rcases hm with rfl | rfl | rfl | rfl
  · exact ⟨_, parses_string.map _⟩
  · exact ⟨_, (parses_choice _).map _⟩
  · exact ⟨_, parses_word64.map _⟩
  · exact ⟨_, parses_bool.map _⟩

theorem independent : schema.Independent := by
  intro one hone other hother hne tree tree' update update' hmeans hmeans' state
  simp only [schema, List.mem_cons, List.not_mem_nil, or_false] at hone hother
  rcases hone with rfl | rfl | rfl | rfl <;> obtain ⟨_, rfl⟩ := hmeans.exists_of_map <;>
    rcases hother with rfl | rfl | rfl | rfl <;>
      first
      | exact absurd rfl hne
      | (obtain ⟨_, rfl⟩ := hmeans'.exists_of_map; rfl)

theorem ofJson_eq_ok_iff {text : String} {config : Config} : ofJson text = .ok config ↔
    schema.reader.readAll text = .ok config ∧ config.validate = .ok () := by
  unfold ofJson
  split
  · rename_i hread
    simp [hread]
  · rename_i found hread
    simp only [hread, Except.ok.injEq]
    split
    · rename_i hvalid
      simp only [reduceCtorEq, false_iff, not_and]
      rintro rfl
      simp [hvalid]
    · rename_i hvalid
      simp only [Except.ok.injEq, iff_self_and]
      rintro rfl
      exact hvalid

theorem indifferent :
    Indifferent ofJson (fun _ => schema.Declares) (fun _ => True) fun _ _ => False :=
  (schema.indifferent parses_fields independent).restrict ofJson_eq_ok_iff

end Config

namespace FileEvent

theorem parses_fields : ∀ field ∈ schema.fields, ∃ means, Json.Parses field.reader means := by
  intro field hm
  simp only [schema, List.mem_cons, List.not_mem_nil, or_false] at hm
  rcases hm with rfl | rfl
  · exact ⟨_, parses_string.map _⟩
  · exact ⟨_, (parses_choice _).map _⟩

theorem independent : schema.Independent := by
  intro one hone other hother hne tree tree' update update' hmeans hmeans' state
  simp only [schema, List.mem_cons, List.not_mem_nil, or_false] at hone hother
  rcases hone with rfl | rfl <;> obtain ⟨_, rfl⟩ := hmeans.exists_of_map <;>
    rcases hother with rfl | rfl <;>
      first
      | exact absurd rfl hne
      | (obtain ⟨_, rfl⟩ := hmeans'.exists_of_map; rfl)

theorem indifferent :
    Indifferent ofJson (fun _ => schema.Declares) (fun _ => True) fun _ _ => False :=
  schema.indifferent parses_fields independent

end FileEvent

-- Members that are skipped may hold anything, those that are kept for later something plain.
theorem indifferent_to_arrangement :
    Indifferent Declaration.ofJson (fun _ => Declaration.schema.Declares) (fun _ => True)
      (fun _ _ => False) ∧
    Indifferent Config.ofJson (fun _ => Config.schema.Declares) (fun _ => True)
      (fun _ _ => False) ∧
    Indifferent FileEvent.ofJson (fun _ => FileEvent.schema.Declares) (fun _ => True)
      (fun _ _ => False) ∧
    Indifferent Message.ofJson (fun message => message.kind.Declares) Tree.IsPlain
      UpdatesRearranged ∧
    ∀ {text message members key items update name}, Message.ofJson text = .ok message →
      message.kind = .hotReload → IsTextOf text (.object members) →
        (key, .list items) ∈ members → key.text? = some "updates" → .object update ∈ items →
          Instruction.form.Declares name → timesNamed name update ≤ 1 := by
  refine ⟨Declaration.indifferent, Config.indifferent, FileEvent.indifferent, Message.indifferent,
    ?_⟩
  intro text message members key items update name hload hkind htext hm hkey hitem hname
  have hloads := (Message.follows.iff htext).1 hload
  exact hloads.timesNamed_le_one_of_update hkind hm hkey hitem hname

theorem eq_ok_of_toOption {ε α : Type} {result : Except ε α} {value : α}
    (h : result.toOption = some value) : result = .ok value := by
  cases result with
  | error fault => cases h
  | ok found => cases h; rfl

-- The declaration comes in another order and with a member that nothing is known of, the settings
-- without one of that sort, the event with blanks. The tag of the message moves to the end, and its
-- update begins with the boundary.
theorem rearranged_texts_load_alike :
    (Declaration.ofJson ("\x7b\"type\":\"js\",\"dependencyUrls\":[\"b.js\"]," ++
        "\"declinesHotUpdate\":true\x7d") =
      .ok { kind := some "js", dependencies := some ["b.js"], declines := some true } ∧
    Declaration.ofJson ("\x7b\"declinesHotUpdate\":true,\"sizes\":[null],\"type\":\"js\"," ++
        "\"dependencyUrls\":[\"b.js\"]\x7d") =
      .ok { kind := some "js", dependencies := some ["b.js"], declines := some true }) ∧
    (Config.ofJson ("\x7b\"rootUrl\":\"/app/\",\"debug\":\"yes\"," ++
        "\"wireFormat\":\"msgpack\"\x7d") =
      .ok { rootUrl := "/app/", wireFormat := .messagePack } ∧
    Config.ofJson "\x7b\"wireFormat\":\"msgpack\",\"rootUrl\":\"/app/\"\x7d" =
      .ok { rootUrl := "/app/", wireFormat := .messagePack }) ∧
    (FileEvent.ofJson "\x7b\"url\":\"a.js\",\"event\":\"removed\"\x7d" = .ok ⟨"a.js", .removed⟩ ∧
    FileEvent.ofJson " \x7b\n\"event\" : \"removed\",\t\"url\" :\"a.js\" \x7d" =
      .ok ⟨"a.js", .removed⟩) ∧
    Message.ofJson (Message.hotReload "a" [⟨"js", "b", "c"⟩]).toJson =
      .ok (.hotReload "a" [⟨"js", "b", "c"⟩]) ∧
    Message.ofJson ("\x7b\"cause\":\"a\",\"sent\":null," ++
      "\"updates\":[\x7b\"boundary\":\"b\",\"type\":\"js\",\"acceptedBy\":\"c\"\x7d]," ++
      "\"type\":\"hot_reload\"\x7d") = .ok (.hotReload "a" [⟨"js", "b", "c"⟩]) := by
  let member (key value : String) : Quoted × Tree := (.ofText key, .string (.ofText value))
  refine ⟨?declaration, ?config, ?event, ?message⟩
  case declaration =>
    let kind := member "type" "js"
    let dependencies := (Quoted.ofText "dependencyUrls", Tree.list [.string (.ofText "b.js")])
    let declines := (Quoted.ofText "declinesHotUpdate", Tree.bool true)
    let sizes := (Quoted.ofText "sizes", Tree.list [.null])
    have hlist := prints_list (.cons (prints_text "b.js") .nil)
    have hbefore : Prints (printObject [("type", printText "js"),
        ("dependencyUrls", printList [printText "b.js"]),
        ("declinesHotUpdate", ['t', 'r', 'u', 'e'])]) (.object [kind, dependencies, declines]) :=
      prints_object (.cons (printsMember_text ..) (.cons ⟨rfl, hlist⟩ (.cons ⟨rfl, .yes⟩ .nil)))
    have hafter : Prints (printObject [("declinesHotUpdate", ['t', 'r', 'u', 'e']),
        ("sizes", printList [['n', 'u', 'l', 'l']]), ("type", printText "js"),
        ("dependencyUrls", printList [printText "b.js"])])
        (.object [declines, sizes, kind, dependencies]) :=
      prints_object (.cons ⟨rfl, .yes⟩ (.cons ⟨rfl, prints_list (.cons .null .nil)⟩
        (.cons (printsMember_text ..) (.cons ⟨rfl, hlist⟩ .nil))))
    refine ⟨?loads, indifferent_to_arrangement.1.rearranged ?loads hbefore.isTextOf
      hafter.isTextOf ?_⟩
    case loads => exact eq_ok_of_toOption (by decide +kernel)
    refine .trans (.permute (List.perm_append_singleton declines [kind, dependencies])) ?_
    exact @Rearranged.insert _ _ _ [declines] _ _ "sizes" _ (Quoted.text?_ofText "sizes")
      (by decide) trivial
  case config =>
    let root := member "rootUrl" "/app/"
    let debug := member "debug" "yes"
    let format := member "wireFormat" "msgpack"
    have hbefore : Prints (printObject [("rootUrl", printText "/app/"), ("debug", printText "yes"),
        ("wireFormat", printText "msgpack")]) (.object [root, debug, format]) :=
      prints_object (.cons (printsMember_text ..) (.cons (printsMember_text ..)
        (.cons (printsMember_text ..) .nil)))
    have hafter : Prints (printObject [("wireFormat", printText "msgpack"),
        ("rootUrl", printText "/app/")]) (.object [format, root]) :=
      prints_object (.cons (printsMember_text ..) (.cons (printsMember_text ..) .nil))
    refine ⟨?loads, indifferent_to_arrangement.2.1.rearranged ?loads hbefore.isTextOf
      hafter.isTextOf ?_⟩
    case loads => exact eq_ok_of_toOption (by decide +kernel)
    refine .trans (@Rearranged.delete _ _ _ [root] [format] _ "debug" _
      (Quoted.text?_ofText "debug") (by decide)) ?_
    exact .permute (.swap ..)
  case event =>
    let url := member "url" "a.js"
    let event := member "event" "removed"
    have hbefore : Prints (printObject [("url", printText "a.js"),
        ("event", printText "removed")]) (.object [url, event]) :=
      prints_object (.cons (printsMember_text ..) (.cons (printsMember_text ..) .nil))
    have hafter : IsTextOf " \x7b\n\"event\" : \"removed\",\t\"url\" :\"a.js\" \x7d"
        (.object [event, url]) := by
      refine ⟨_, [], .blank rfl (.here _), .object ?_, .here []⟩
      refine .member (.first _) (.blank rfl (.here _)) (.blank rfl (.here _)) (.blank rfl (.here _))
        (.string ..) ?_
      refine .member (.comma (.here _)) (.blank rfl (.here _)) (.blank rfl (.here _)) (.here _)
        (.string ..) ?_
      exact .close (.blank rfl (.here _))
    refine ⟨?loads, indifferent_to_arrangement.2.2.1.rearranged ?loads hbefore.isTextOf hafter
      (.permute (.swap ..))⟩
    exact eq_ok_of_toOption (by decide +kernel)
  case message =>
    let tag := member "type" "hot_reload"
    let cause := member "cause" "a"
    let sent := (Quoted.ofText "sent", Tree.null)
    let kind := member "type" "js"
    let boundary := member "boundary" "b"
    let accepted := member "acceptedBy" "c"
    let updates (members : List (Quoted × Tree)) :=
      (Quoted.ofText "updates", Tree.list [.object members])
    have hload := Message.ofJson_toJson (.hotReload "a" [⟨"js", "b", "c"⟩])
    have hbefore : IsTextOf (Message.hotReload "a" [⟨"js", "b", "c"⟩]).toJson
        (.object [tag, cause, updates [kind, boundary, accepted]]) :=
      (Message.prints_print _).isTextOf
    have hafter : Prints (printObject [("cause", printText "a"), ("sent", ['n', 'u', 'l', 'l']),
        ("updates", printList [printObject [("boundary", printText "b"), ("type", printText "js"),
          ("acceptedBy", printText "c")]]), ("type", printText "hot_reload")])
        (.object [cause, sent, updates [boundary, kind, accepted], tag]) := by
      have hupdate := prints_object (.cons (printsMember_text "boundary" "b")
        (.cons (printsMember_text "type" "js") (.cons (printsMember_text "acceptedBy" "c") .nil)))
      exact prints_object (.cons (printsMember_text ..) (.cons ⟨rfl, .null⟩
        (.cons ⟨rfl, prints_list (.cons hupdate .nil)⟩ (.cons (printsMember_text ..) .nil))))
    refine ⟨hload, indifferent_to_arrangement.2.2.2.1.rearranged hload hbefore hafter.isTextOf ?_⟩
    refine .trans (.permute (List.perm_append_singleton tag [cause, updates _]).symm) ?_
    refine .trans (@Rearranged.insert _ _ _ [cause] _ _ "sent" .null (Quoted.text?_ofText "sent")
      (by decide) trivial) ?_
    refine @Rearranged.within _ _ _ [cause, sent] [tag] _ _ ?_
    exact .updates (Quoted.text?_ofText "updates") (.cons (.object (.permute (.swap ..))) .nil)

end LiveReload
