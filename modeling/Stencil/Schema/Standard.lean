import Stencil.Schema.Descriptor

/-!
# Standard messages

The messages every host application is linked with: those that describe messages
themselves, and those for durations and for points in time.
-/

namespace Stencil

/-- The description of an optional field. -/
def optionalField (name : String) (number : Nat) (kind : FieldKind)
    (dflt : Option Scalar := none) : FieldDesc :=
  { name, number, kind, jsonName := camelName name, dflt }

/-- The description of a repeated field. -/
def repeatedFieldOf (name : String) (number : Nat) (kind : FieldKind) (packed : Bool := false) :
    FieldDesc :=
  { name, number, kind, jsonName := camelName name, cardinality := .repeated, packed }

/-- The description of a field that must be set. -/
def requiredField (name : String) (number : Nat) (kind : FieldKind) : FieldDesc :=
  { name, number, kind, jsonName := camelName name, cardinality := .required }

/-- The description of a field that is set exactly if it differs from its default. -/
def plainField (name : String) (number : Nat) (kind : FieldKind) : FieldDesc :=
  { name, number, kind, jsonName := camelName name, hasPresence := false }

namespace Standard

/-- A full name in the standard package. -/
def full (name : String) : Bytes := Bytes.ofString "google.protobuf." ++ name

/-- A standard message as the type of a field. -/
def msg (name : String) : FieldKind := .message (full name)

/-- The description of a standard message. -/
def message (name : String) (fields : List FieldDesc) : MessageDesc :=
  { fullName := full name, fields, isTop := !name.contains '.' }

private def text (name : String) (number : Nat) : FieldDesc := optionalField name number .string
private def int (name : String) (number : Nat) : FieldDesc := optionalField name number .int32
private def flag (name : String) (number : Nat) : FieldDesc := optionalField name number .bool

/-- A flag with a given default. -/
private def flagOf (name : String) (number : Nat) (dflt : Bool) : FieldDesc :=
  optionalField name number .bool (some (.bool dflt))

/-- The field for options that are not understood. -/
private def otherOptions : FieldDesc :=
  repeatedFieldOf "uninterpreted_option" 999 (msg "UninterpretedOption")

/-- The messages that describe files and what they define. -/
def definitionMessages : List MessageDesc :=
  [message "FileDescriptorSet" [repeatedFieldOf "file" 1 (msg "FileDescriptorProto")],
   message "FileDescriptorProto"
    [text "name" 1, text "package" 2, repeatedFieldOf "dependency" 3 .string,
     repeatedFieldOf "public_dependency" 10 .int32, repeatedFieldOf "weak_dependency" 11 .int32,
     repeatedFieldOf "message_type" 4 (msg "DescriptorProto"),
     repeatedFieldOf "enum_type" 5 (msg "EnumDescriptorProto"),
     repeatedFieldOf "service" 6 (msg "ServiceDescriptorProto"),
     repeatedFieldOf "extension" 7 (msg "FieldDescriptorProto"),
     optionalField "options" 8 (msg "FileOptions"),
     optionalField "source_code_info" 9 (msg "SourceCodeInfo"), text "syntax" 12],
   message "DescriptorProto"
    [text "name" 1, repeatedFieldOf "field" 2 (msg "FieldDescriptorProto"),
     repeatedFieldOf "extension" 6 (msg "FieldDescriptorProto"),
     repeatedFieldOf "nested_type" 3 (msg "DescriptorProto"),
     repeatedFieldOf "enum_type" 4 (msg "EnumDescriptorProto"),
     repeatedFieldOf "extension_range" 5 (msg "DescriptorProto.ExtensionRange"),
     repeatedFieldOf "oneof_decl" 8 (msg "OneofDescriptorProto"),
     optionalField "options" 7 (msg "MessageOptions"),
     repeatedFieldOf "reserved_range" 9 (msg "DescriptorProto.ReservedRange"),
     repeatedFieldOf "reserved_name" 10 .string],
   message "DescriptorProto.ExtensionRange"
    [int "start" 1, int "end" 2, optionalField "options" 3 (msg "ExtensionRangeOptions")],
   message "DescriptorProto.ReservedRange" [int "start" 1, int "end" 2],
   message "ExtensionRangeOptions" [otherOptions],
   message "FieldDescriptorProto"
    [text "name" 1, int "number" 3,
     optionalField "label" 4 (.enum (full "FieldDescriptorProto.Label")),
     optionalField "type" 5 (.enum (full "FieldDescriptorProto.Type")), text "type_name" 6,
     text "extendee" 2, text "default_value" 7, int "oneof_index" 9, text "json_name" 10,
     optionalField "options" 8 (msg "FieldOptions"), flag "proto3_optional" 17],
   message "OneofDescriptorProto" [text "name" 1, optionalField "options" 2 (msg "OneofOptions")],
   message "EnumDescriptorProto"
    [text "name" 1, repeatedFieldOf "value" 2 (msg "EnumValueDescriptorProto"),
     optionalField "options" 3 (msg "EnumOptions"),
     repeatedFieldOf "reserved_range" 4 (msg "EnumDescriptorProto.EnumReservedRange"),
     repeatedFieldOf "reserved_name" 5 .string],
   message "EnumDescriptorProto.EnumReservedRange" [int "start" 1, int "end" 2],
   message "EnumValueDescriptorProto"
    [text "name" 1, int "number" 2, optionalField "options" 3 (msg "EnumValueOptions")],
   message "ServiceDescriptorProto"
    [text "name" 1, repeatedFieldOf "method" 2 (msg "MethodDescriptorProto"),
     optionalField "options" 3 (msg "ServiceOptions")],
   message "MethodDescriptorProto"
    [text "name" 1, text "input_type" 2, text "output_type" 3,
     optionalField "options" 4 (msg "MethodOptions"), flagOf "client_streaming" 5 false,
     flagOf "server_streaming" 6 false]]

/-- The messages for the options of definitions. -/
def optionMessages : List MessageDesc :=
  [message "FileOptions"
    [text "java_package" 1, text "java_outer_classname" 8, flagOf "java_multiple_files" 10 false,
     flag "java_generate_equals_and_hash" 20, flagOf "java_string_check_utf8" 27 false,
     optionalField "optimize_for" 9 (.enum (full "FileOptions.OptimizeMode")) (some (.int 1)),
     text "go_package" 11, flagOf "cc_generic_services" 16 false,
     flagOf "java_generic_services" 17 false, flagOf "py_generic_services" 18 false,
     flagOf "php_generic_services" 42 false, flagOf "deprecated" 23 false,
     flagOf "cc_enable_arenas" 31 true, text "objc_class_prefix" 36, text "csharp_namespace" 37,
     text "swift_prefix" 39, text "php_class_prefix" 40, text "php_namespace" 41,
     text "php_metadata_namespace" 44, text "ruby_package" 45, otherOptions],
   message "MessageOptions"
    [flagOf "message_set_wire_format" 1 false, flagOf "no_standard_descriptor_accessor" 2 false,
     flagOf "deprecated" 3 false, flag "map_entry" 7, otherOptions],
   message "FieldOptions"
    [optionalField "ctype" 1 (.enum (full "FieldOptions.CType")) (some (.int 0)), flag "packed" 2,
     optionalField "jstype" 6 (.enum (full "FieldOptions.JSType")) (some (.int 0)),
     flagOf "lazy" 5 false, flagOf "deprecated" 3 false, flagOf "weak" 10 false, otherOptions],
   message "OneofOptions" [otherOptions],
   message "EnumOptions" [flag "allow_alias" 2, flagOf "deprecated" 3 false, otherOptions],
   message "EnumValueOptions" [flagOf "deprecated" 1 false, otherOptions],
   message "ServiceOptions" [flagOf "deprecated" 33 false, otherOptions],
   message "MethodOptions"
    [flagOf "deprecated" 33 false,
     optionalField "idempotency_level" 34 (.enum (full "MethodOptions.IdempotencyLevel"))
      (some (.int 0)), otherOptions],
   message "UninterpretedOption"
    [repeatedFieldOf "name" 2 (msg "UninterpretedOption.NamePart"), text "identifier_value" 3,
     optionalField "positive_int_value" 4 .uint64, optionalField "negative_int_value" 5 .int64,
     optionalField "double_value" 6 .double, optionalField "string_value" 7 .bytes,
     text "aggregate_value" 8],
   message "UninterpretedOption.NamePart"
    [requiredField "name_part" 1 .string, requiredField "is_extension" 2 .bool]]

/-- The messages that tie definitions to source text. -/
def sourceMessages : List MessageDesc :=
  [message "SourceCodeInfo" [repeatedFieldOf "location" 1 (msg "SourceCodeInfo.Location")],
   message "SourceCodeInfo.Location"
    [repeatedFieldOf "path" 1 .int32 true, repeatedFieldOf "span" 2 .int32 true,
     text "leading_comments" 3, text "trailing_comments" 4,
     repeatedFieldOf "leading_detached_comments" 6 .string],
   message "GeneratedCodeInfo" [repeatedFieldOf "annotation" 1 (msg "GeneratedCodeInfo.Annotation")],
   message "GeneratedCodeInfo.Annotation"
    [repeatedFieldOf "path" 1 .int32 true, text "source_file" 2, int "begin" 3, int "end" 4]]

/-- The description of a standard enumeration. -/
private def enum (name : String) (values : List (String × Int)) : EnumDesc :=
  { fullName := full name, values := values.map fun (n, i) => (Bytes.ofString n, i) }

/-- The enumerations of definitions and options. -/
def definitionEnums : List EnumDesc :=
  [enum "FieldDescriptorProto.Type"
    [("TYPE_DOUBLE", 1), ("TYPE_FLOAT", 2), ("TYPE_INT64", 3), ("TYPE_UINT64", 4),
     ("TYPE_INT32", 5), ("TYPE_FIXED64", 6), ("TYPE_FIXED32", 7), ("TYPE_BOOL", 8),
     ("TYPE_STRING", 9), ("TYPE_GROUP", 10), ("TYPE_MESSAGE", 11), ("TYPE_BYTES", 12),
     ("TYPE_UINT32", 13), ("TYPE_ENUM", 14), ("TYPE_SFIXED32", 15), ("TYPE_SFIXED64", 16),
     ("TYPE_SINT32", 17), ("TYPE_SINT64", 18)],
   enum "FieldDescriptorProto.Label"
    [("LABEL_OPTIONAL", 1), ("LABEL_REQUIRED", 2), ("LABEL_REPEATED", 3)],
   enum "FileOptions.OptimizeMode" [("SPEED", 1), ("CODE_SIZE", 2), ("LITE_RUNTIME", 3)],
   enum "FieldOptions.CType" [("STRING", 0), ("CORD", 1), ("STRING_PIECE", 2)],
   enum "FieldOptions.JSType" [("JS_NORMAL", 0), ("JS_STRING", 1), ("JS_NUMBER", 2)],
   enum "MethodOptions.IdempotencyLevel"
    [("IDEMPOTENCY_UNKNOWN", 0), ("NO_SIDE_EFFECTS", 1), ("IDEMPOTENT", 2)]]

/-- A span or point of time: whole seconds and the rest. -/
private def timeFields : List FieldDesc := [plainField "seconds" 1 .int64, plainField "nanos" 2 .int32]

/-- The files of the standard messages. -/
def files : List FileDesc :=
  [{ path := "google/protobuf/descriptor.proto", package := "google.protobuf",
     messages := definitionMessages ++ optionMessages ++ sourceMessages,
     enums := definitionEnums, hostPackage := "descriptorpb" },
   { path := "google/protobuf/duration.proto", package := "google.protobuf", edition := .proto3,
     messages := [message "Duration" timeFields], hostPackage := "durationpb" },
   { path := "google/protobuf/timestamp.proto", package := "google.protobuf", edition := .proto3,
     messages := [message "Timestamp" timeFields], hostPackage := "timestamppb" }]

end Standard

/-- The standard messages. -/
def Pool.standard : Pool := { files := Standard.files, linked := true }

end Stencil
